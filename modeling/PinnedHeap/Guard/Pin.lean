import PinnedHeap.Guard.Basic
import PinnedHeap.Heap.Access

/-!
# Pinning a buffer

The address of a buffer may change with every collection, so collections are
put off from the moment at which the address is read until the pin is
established or has failed.
-/

namespace PinnedHeap.Buffer

variable {σ : Type}

/-- Pins a buffer at its first byte. -/
def pin (b : Buffer) (owner : String) (place : Place σ Heap) (settings : TaskSettings) :
    Action Entry (Shared σ) (Except Refusal Guard) :=
  Guard.establishBetween owner settings (Manager.heap place)
    (Action.within place (Heap.capture b.id)) (Action.within place Heap.allow)

end PinnedHeap.Buffer
