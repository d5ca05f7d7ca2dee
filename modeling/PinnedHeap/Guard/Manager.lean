import PinnedHeap.Heap.Retain

/-!
# Memory managers

What a pinning task needs of whoever manages the memory that is pinned: a way
to hold an address and a way to give it back. Both are called on the task's
own thread, and the name of that thread is passed along.
-/

namespace PinnedHeap

/-- A manager of memory, acting on a state of type `σ`. -/
structure Manager (σ : Type) where
  /-- The name for log messages. -/
  name : String
  /-- Holds an address. -/
  retain (thread : String) (address : Nat) : Action Notice σ Unit
  /-- Gives an address back. -/
  unretain (thread : String) (address : Nat) : Action Notice σ Unit
  /-- What comes last, when a task that has done its work lets go of its manager. -/
  close : Action Notice σ Unit

namespace Manager

variable {σ : Type}

/-- The name of managers that have none of their own. -/
def commonName : String := "memory manager"

/-- The manager of memory that never moves. -/
def unmanaged : Manager σ where
  name := "unmanaged"
  retain _ _ := pure ()
  unretain _ _ := pure ()
  close := pure ()

/-- A heap as the manager of its own memory. -/
def heap (place : Place σ Heap) : Manager σ where
  name := "managed heap"
  retain _ address := Action.within place (Heap.retain address)
  unretain _ address := Action.within place (Heap.unretain address)
  close := pure ()

end Manager

end PinnedHeap
