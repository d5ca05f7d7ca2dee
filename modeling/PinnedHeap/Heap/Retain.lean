import PinnedHeap.Heap.Basic

/-!
# Retains

A retain of any address inside an object holds the object in its place until
it is given back. Retains of one object add up, whichever of its addresses
they name.
-/

namespace PinnedHeap.Heap

/-- Holds the object that contains the address. -/
def retain (address : Nat) : HeapAction Unit := do
  let h ← Action.read
  match ← Action.ofExcept (h.find? address) with
  | none => Action.fail (.nothingToRetain address)
  | some id =>
    let o ← get id
    let retains ← Action.ofExcept (Word.add o.retains 1)
    Action.update fun h => h.setObject id { o with retains }
    Action.note (.retained address id retains)

/-- Is the object that contains the address retained? -/
def isRetained (address : Nat) : HeapAction Bool := do
  let h ← Action.read
  match ← Action.ofExcept (h.find? address) with
  | none => return false
  | some id => return (← get id).isRetained

/-- Gives one retain of the object that contains the address back. -/
def unretain (address : Nat) : HeapAction Unit := do
  let h ← Action.read
  match ← Action.ofExcept (h.find? address) with
  | none => Action.fail (.notRetained address)
  | some id =>
    let o ← get id
    Action.require (o.isRetained = true) (.notRetained address)
    Action.update fun h => h.setObject id { o with retains := o.retains - 1 }
    Action.note (.unretained address id (o.retains - 1))

end PinnedHeap.Heap
