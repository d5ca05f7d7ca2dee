/-!
# Fixed places

A quotient of naturals with a fixed number of decimal places, rounded to the
nearest; a half goes to the even neighbour.
-/

namespace PinnedHeap.Text

/-- `num / den`, rounded to the nearest natural, a half to the even one. -/
def roundHalfEven (num den : Nat) : Nat :=
  let q := num / den
  let r := num % den
  if 2 * r < den then q
  else if den < 2 * r then q + 1
  else if q % 2 = 0 then q else q + 1

/-- `num / den` with two decimal places. -/
def hundredths (num den : Nat) : String :=
  let n := roundHalfEven (100 * num) den
  toString (n / 100) ++ "." ++ toString (n % 100 / 10) ++ toString (n % 10)

example : hundredths 1 8 = "0.12" := by decide
example : hundredths 3 8 = "0.38" := by decide
example : hundredths 1000 1 = "1000.00" := by decide

end PinnedHeap.Text
