/-!
# Hexadecimal numbers

The one form in which addresses are written: `0x`, then lowercase digits
without leading zeros.
-/

namespace PinnedHeap.Text

/-- `n` in base sixteen, introduced by `0x`. -/
def hex (n : Nat) : String :=
  "0x" ++ String.ofList (Nat.toDigits 16 n)

example : hex 0 = "0x0" := by decide
example : hex 48879 = "0xbeef" := by decide

end PinnedHeap.Text
