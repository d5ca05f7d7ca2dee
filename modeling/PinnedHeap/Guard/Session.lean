import PinnedHeap.Guard.Interleaving
import PinnedHeap.Heap.Call

/-!
# Sessions

Threads that share one heap. An owner is asked for one thing after the other:
for a call to the heap, or for something to do with guards. What it is asked
for next may depend on everything that has happened; nothing is asked of an
owner that is in the middle of something.
-/

namespace PinnedHeap

open Heap (Call Answer)

/-- One thing that an owner can be asked for. -/
inductive Request where
  /-- A call to the heap. -/
  | call (c : Call)
  /-- A guard of the buffer with this id. -/
  | pin (id : Nat) (settings : TaskSettings)
  /-- A guard of an address. -/
  | guard (address : Nat) (settings : TaskSettings)
  /-- To store a guard. -/
  | store (guard : Nat) (slot : Slot)
  /-- To release a guard. -/
  | release (guard : Nat) (unwinding : Bool)

/-- What the owner does about it. Collections are put off while a buffer is being
pinned, as in `Buffer.pin`. -/
def Request.command : Request → Command Heap Answer
  | call c => .act c.run
  | pin id settings =>
    .pin settings (.heap .whole) (Action.within .whole (Heap.capture id))
      (Action.within .whole Heap.allow)
  | guard address settings => .pin settings (.heap .whole) (pure address) (pure ())
  | store k slot => .store k slot
  | release k unwinding => .release k unwinding

/-- What happens next in a session. -/
inductive Move where
  /-- An owner is asked for something and begins with it. -/
  | ask (owner : Nat) (r : Request)
  /-- An owner or a task goes on. -/
  | go (actor : Actor)

/-- Threads that share a heap. -/
abbrev Session : Type := Threads Heap Answer

namespace Session

/-- The heap as it is. -/
def heap (s : Session) : Heap := s.shared.managed

/-- Nothing has been asked for. -/
def start (h : Heap) (refusal : TaskSettings → Option String) (threads : List String) :
    Session where
  shared := { Shared.start h with refusal }
  owners := threads.map fun thread => { thread, program := [] }

/-- The session once the owner has been told what to do. -/
def told (s : Session) (i : Nat) (w : Owner Heap Answer) (r : Request) : Session :=
  { s with owners := s.owners.set i { w with program := r.command :: w.program } }

/-- An owner that is in the middle of nothing begins with what it is asked for. -/
def ask (s : Session) (i : Nat) (r : Request) : Option Session :=
  match s.owners[i]? with
  | none => none
  | some w =>
    match w.stage with
    | .idle => (s.told i w r).stepOwner i
    | _ => none

/-- Lets a move happen, if it can. -/
def move? (s : Session) : Move → Option Session
  | .ask i r => s.ask i r
  | .go actor => s.step? actor

end Session

end PinnedHeap
