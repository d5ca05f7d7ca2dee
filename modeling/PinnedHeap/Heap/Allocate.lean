import PinnedHeap.Heap.Storage

/-!
# Allocation

A new object is zeroed, belongs to the buffer that is handed out for it, and
takes the id that was given up last, if any was.
-/

namespace PinnedHeap

/-- An owner's handle on an object. The object survives collections as long as the
owner keeps the handle. -/
structure Buffer where
  /-- The object's id. -/
  id : Nat
  /-- The size in bytes. -/
  len : Nat
  deriving DecidableEq, Repr

namespace Heap

/-- Enters an object into the table and the index, and answers its id. -/
def enroll (o : Object) : HeapAction Nat := do
  let h ← Action.read
  match h.vacant with
  | id :: vacant =>
    Action.update fun h => { h.setObject id o with
      vacant, index := h.index.insert o.address id }
    return id
  | [] =>
    let id := h.objects.length
    Action.update fun h => { h with
      objects := h.objects ++ [some o], index := h.index.insert o.address id }
    return id

/-- Allocates a zeroed buffer of `len` bytes. -/
def allocate (len : Nat) : HeapAction Buffer := do
  Action.require (0 < len) .emptyBuffer
  let footprint ← Action.ofExcept (Word.mul (Word.count len) Word.size)
  let address ← reserve footprint
  Action.update fun h => { h with memory := h.memory.clear address footprint }
  let id ← enroll
    { address, len, footprint, rooted := true, marked := false, retains := 0 }
  return { id, len }

end Heap

end PinnedHeap
