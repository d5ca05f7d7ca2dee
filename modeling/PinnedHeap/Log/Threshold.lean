import PinnedHeap.Text.Blank

/-!
# Thresholds

How chatty a message is, as a number from 0 to 255, and how such a number is
read from text: blanks around it are ignored, one plus sign may stand in front,
and there may be any number of leading zeros.
-/

namespace PinnedHeap.Log.Threshold

/-- The greatest threshold. -/
def greatest : Nat := 255

/-- The threshold in force as long as nothing else has been said. -/
def standard : Nat := 3

/-- The value of a decimal digit. -/
def digit? (c : Char) : Option Nat :=
  if '0' ≤ c ∧ c ≤ '9' then some (c.toNat - '0'.toNat) else none

/-- Reads digits that follow the ones with the value `n`. The first character that
is no digit, and the first digit that leads past the greatest threshold, end it. -/
def continue? (n : Nat) : List Char → Option Nat
  | [] => some n
  | c :: cs => do
    let m := 10 * n + (← digit? c)
    if m ≤ greatest then continue? m cs else none

/-- Reads one digit or more. -/
def digits? : List Char → Option Nat
  | [] => none
  | cs => continue? 0 cs

/-- Reads digits behind a plus sign that may be missing. -/
def number? : List Char → Option Nat
  | '+' :: cs => digits? cs
  | cs => digits? cs

/-- Reads a threshold. -/
def parse? (s : String) : Option Nat := number? (Text.trim s.toList)

example : parse? " +007\n" = some 7 := by decide
example : parse? "256" = none := by decide
example : parse? "+" = none := by decide

end PinnedHeap.Log.Threshold
