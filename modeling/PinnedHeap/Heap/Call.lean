import PinnedHeap.Heap.Access
import PinnedHeap.Heap.Collect
import PinnedHeap.Heap.Retain

/-!
# Calls

Everything that can be asked of a heap, as data, so that a history of a heap
is a list of calls.
-/

namespace PinnedHeap.Heap

/-- One thing that can be asked of a heap. Objects are named by their ids. -/
inductive Call where
  /-- Allocates a buffer. -/
  | allocate (len : Nat)
  /-- Asks for the address of an object. -/
  | addressOf (id : Nat)
  /-- Overwrites bytes of an object. -/
  | write (id offset : Nat) (bytes : List UInt8)
  /-- Reads an object. -/
  | read (id : Nat)
  /-- Gives the buffer of an object up. -/
  | unroot (id : Nat)
  /-- Holds the object that contains an address. -/
  | retain (address : Nat)
  /-- Gives a retain back. -/
  | unretain (address : Nat)
  /-- Asks whether the object that contains an address is held. -/
  | isRetained (address : Nat)
  /-- Puts collections off, and asks for the address of an object. -/
  | inhibit (id : Nat)
  /-- Takes an `inhibit` back. -/
  | allow
  /-- Collects. -/
  | collect
  /-- Collects if the heap asks for it. -/
  | collectIfWanted
  /-- Overwrites memory from outside, without asking the heap. -/
  | poke (address : Nat) (bytes : List UInt8)
  deriving DecidableEq, Repr

/-- What is answered to a call that does not break off. -/
inductive Answer where
  | done
  | buffer (b : Buffer)
  | address (a : Nat)
  | content (bytes : List UInt8)
  | flag (b : Bool)
  | report (r : Option Report)
  deriving DecidableEq, Repr

/-- Overwrites memory from outside. -/
def poke (address : Nat) (bytes : List UInt8) : HeapAction Unit :=
  Action.update fun h => { h with memory := h.memory.write address bytes }

/-- Carries out a call. -/
def Call.run : Call → HeapAction Answer
  | allocate len => do return .buffer (← Heap.allocate len)
  | addressOf id => do return .address (← Heap.addressOf id)
  | write id offset bytes => do
    writeAt id offset bytes
    return .done
  | read id => do return .content (← contentOf id)
  | unroot id => do
    Heap.unroot id
    return .done
  | retain address => do
    Heap.retain address
    return .done
  | unretain address => do
    Heap.unretain address
    return .done
  | isRetained address => do return .flag (← Heap.isRetained address)
  | inhibit id => do return .address (← Heap.inhibit id)
  | allow => do
    Heap.allow
    return .done
  | collect => do return .report (← Heap.collect)
  | collectIfWanted => do return .report (← Heap.collectIfWanted)
  | poke address bytes => do
    Heap.poke address bytes
    return .done

/-- Carries out calls one after the other. A call that breaks off has a fault for an
answer, and the next call follows. -/
def Call.runAll : List Call → HeapAction (List (Except Fault Answer))
  | [] => return []
  | c :: cs => do
    let r ← Action.attempt c.run
    let rs ← runAll cs
    return r :: rs

end PinnedHeap.Heap
