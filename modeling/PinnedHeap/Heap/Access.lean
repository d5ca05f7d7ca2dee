import PinnedHeap.Heap.Allocate

/-!
# Access to objects

Reading and writing an object's bytes, giving it up, and putting collections
off while its address is in use.
-/

namespace PinnedHeap.Heap

/-- The current address of an object. -/
def addressOf (id : Nat) : HeapAction Nat := do
  return (← get id).address

/-- Overwrites bytes of an object from `offset` on. -/
def writeAt (id offset : Nat) (bytes : List UInt8) : HeapAction Unit := do
  let o ← get id
  Action.ofExcept (o.checkRange offset bytes.length)
  Action.update fun h => { h with memory := h.memory.write (o.address + offset) bytes }

/-- The bytes of an object. -/
def contentOf (id : Nat) : HeapAction (List UInt8) := do
  let o ← get id
  let h ← Action.read
  return h.memory.read o.address o.len

/-- No buffer refers to the object any longer. -/
def unroot (id : Nat) : HeapAction Unit := do
  let o ← get id
  Action.update fun h => h.setObject id { o with rooted := false }

/-- Puts collections off, and answers the address that the object has for as long. -/
def inhibit (id : Nat) : HeapAction Nat := do
  let h ← Action.read
  let inhibitors ← Action.ofExcept (Word.add h.inhibitors 1)
  -- from here on collections are put off, whether or not the object exists
  Action.update fun h => { h with inhibitors }
  addressOf id

/-- Takes back one `inhibit`. -/
def allow : HeapAction Unit := do
  let h ← Action.read
  Action.require (0 < h.inhibitors) .nothingInhibited
  Action.update fun h => { h with inhibitors := h.inhibitors - 1 }

/-- Puts collections off for a pin of the object, and answers the address to pin. An
object at the null address is not pinned, and then collections are not put off. -/
def capture (id : Nat) : HeapAction Nat := do
  let address ← inhibit id
  if address = 0 then
    allow
    Action.fail (.nullAddress id)
  else return address

end PinnedHeap.Heap

namespace PinnedHeap.Buffer

/-- The current address of the first byte. -/
def address (b : Buffer) : HeapAction Nat := Heap.addressOf b.id

/-- Never true of a buffer that was allocated. -/
def isEmpty (b : Buffer) : Bool := b.len == 0

/-- The bytes. -/
def read (b : Buffer) : HeapAction (List UInt8) := Heap.contentOf b.id

/-- Overwrites bytes from `offset` on. -/
def write (b : Buffer) (offset : Nat) (bytes : List UInt8) : HeapAction Unit :=
  Heap.writeAt b.id offset bytes

/-- Gives the handle up. -/
def drop (b : Buffer) : HeapAction Unit := Heap.unroot b.id

/-- The text of a buffer. -/
def text (b : Buffer) : HeapAction String := do
  let address ← b.address
  return Text.record "ManagedBuffer" [
    ("object", toString b.id), ("address", Text.hex address), ("len", toString b.len)]

end PinnedHeap.Buffer
