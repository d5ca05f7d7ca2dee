import PinnedHeap.Word

/-!
# Objects

The record of one object of the heap: where it lies, how long it is, and what
keeps it alive.
-/

namespace PinnedHeap

/-- What the heap knows of one object. -/
structure Object where
  /-- The address of the first byte. -/
  address : Nat
  /-- The size in bytes that was asked for. -/
  len : Nat
  /-- The size in bucket storage: `len`, rounded up to whole words. -/
  footprint : Nat
  /-- Does a buffer still refer to the object? -/
  rooted : Bool
  /-- Has the collection that is under way found the object alive? -/
  marked : Bool
  /-- Retains that have not been given back. -/
  retains : Nat
  deriving DecidableEq, Repr

namespace Object

/-- Is the object held in its place? -/
def isRetained (o : Object) : Bool := 0 < o.retains

/-- Does the object survive a collection? -/
def isLive (o : Object) : Bool := o.rooted || o.isRetained

/-- Is the address one of the object's `len` bytes? The end of the object is
computed only for addresses that are not in front of it. -/
def contains (o : Object) (address : Nat) : Except Fault Bool :=
  if address < o.address then .ok false
  else (Word.add o.address o.len).map fun stop => decide (address < stop)

/-- Lies a range of `len` bytes at `offset` inside the object? -/
def checkRange (o : Object) (offset len : Nat) : Except Fault Unit :=
  if offset + len ≤ o.len ∧ offset + len < Word.limit then .ok ()
  else .error (.outOfBounds offset len o.len)

/-- Marks the object if it is alive. -/
def markIfLive (o : Object) : Object :=
  if o.isLive then { o with marked := true } else o

/-- The flags that are set, highest one first, in binary and by name. -/
def flagsText (o : Object) : String :=
  let inner := match o.rooted, o.marked with
    | false, false => "0b0"
    | true, false => "0b1, Rooted"
    | false, true => "0b10, Marked"
    | true, true => "0b11, Rooted | Marked"
  "BitFlags<ObjectFlag>(" ++ inner ++ ")"

/-- Off the end of memory aside, containment is what it says. -/
theorem contains_eq_ok {o : Object} {a : Nat} (h : o.address + o.len < Word.limit) :
    o.contains a = .ok (decide (o.address ≤ a ∧ a < o.address + o.len)) := by
  unfold contains
  split
  · next hlt => simp; omega
  · next hlt => simp [Word.add_of_lt h, Except.map]; omega

end Object

end PinnedHeap
