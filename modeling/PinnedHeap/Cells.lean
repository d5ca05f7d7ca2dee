import PinnedHeap.Word

/-!
# Foreign cells

Words of memory that the heap does not own, and the slots through which a
guard writes one of them. A slot is made of an address once, and only of one
that a word can have.
-/

namespace PinnedHeap

/-- The content of foreign memory, by the addresses of its words. -/
structure Cells where
  wordAt : Nat → Nat

namespace Cells

/-- Nothing has been written yet. -/
def blank : Cells := ⟨fun _ => 0⟩

/-- Writes a word. -/
def write (c : Cells) (address value : Nat) : Cells :=
  ⟨fun a => if a = address then value else c.wordAt a⟩

@[simp] theorem wordAt_write_self (c : Cells) (address value : Nat) :
    (c.write address value).wordAt address = value := by simp [write]

theorem wordAt_write_of_ne {c : Cells} {address value a : Nat} (h : a ≠ address) :
    (c.write address value).wordAt a = c.wordAt a := by simp [write, h]

end Cells

/-- The address of a word. -/
structure Slot where
  address : Nat
  address_ne_zero : address ≠ 0
  aligned : address % Word.size = 0
  deriving DecidableEq

namespace Slot

/-- The slot at an address. -/
def ofAddress (address : Nat) : Except Fault Slot :=
  if h0 : address = 0 then .error .nullSlot
  else if h : address % Word.size = 0 then .ok ⟨address, h0, h⟩
  else .error (.misalignedSlot address)

/-- The word in the slot's cell. -/
def read (s : Slot) (c : Cells) : Nat := c.wordAt s.address

/-- Writes the slot's cell. -/
def write (s : Slot) (value : Nat) (c : Cells) : Cells := c.write s.address value

end Slot

end PinnedHeap
