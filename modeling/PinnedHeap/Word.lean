import PinnedHeap.Fault

/-!
# Machine words

A word has eight bytes, and the numbers that a word holds are those below
`2 ^ 64`. Numbers are kept as naturals; a sum or a product that leaves the
range of a word is a fault at the place where it is formed.
-/

namespace PinnedHeap.Word

/-- Bytes in a word. -/
def size : Nat := 8

/-- The least number that a word does not hold. -/
def limit : Nat := 0x10000000000000000

/-- The size of the largest block of memory that can be asked for. -/
def largestBlock : Nat := 0x7fffffffffffffff

/-- How many words it takes to hold `bytes` bytes. -/
def count (bytes : Nat) : Nat := (bytes + (size - 1)) / size

/-- `bytes`, rounded up to whole words. -/
def roundUp (bytes : Nat) : Nat := count bytes * size

/-- The sum, unless it leaves the range of a word. -/
def add (a b : Nat) : Except Fault Nat :=
  if a + b < limit then .ok (a + b) else .error .sumOverflow

/-- The product, unless it leaves the range of a word. -/
def mul (a b : Nat) : Except Fault Nat :=
  if a * b < limit then .ok (a * b) else .error .productOverflow

theorem add_of_lt {a b : Nat} (h : a + b < limit) : add a b = .ok (a + b) := by
  simp [add, h]

theorem mul_of_lt {a b : Nat} (h : a * b < limit) : mul a b = .ok (a * b) := by
  simp [mul, h]

theorem mul_eq_ok {a b c : Nat} : mul a b = .ok c ↔ a * b < limit ∧ a * b = c := by
  unfold mul; by_cases h : a * b < limit <;> simp [h]

theorem add_eq_error {a b : Nat} {f : Fault} :
    add a b = .error f ↔ ¬ a + b < limit ∧ f = .sumOverflow := by
  unfold add; by_cases h : a + b < limit <;> simp [h, eq_comm]

theorem mul_eq_error {a b : Nat} {f : Fault} :
    mul a b = .error f ↔ ¬ a * b < limit ∧ f = .productOverflow := by
  unfold mul; by_cases h : a * b < limit <;> simp [h, eq_comm]

theorem le_roundUp (n : Nat) : n ≤ roundUp n := by
  simp only [roundUp, count, size]; omega

@[simp] theorem roundUp_mod_size (n : Nat) : roundUp n % size = 0 := by
  simp [roundUp]

/-- Rounding up finds the least whole number of words that is enough. -/
theorem roundUp_le {n m : Nat} (hm : m % size = 0) (h : n ≤ m) : roundUp n ≤ m := by
  simp only [roundUp, count, size] at *; omega

end PinnedHeap.Word
