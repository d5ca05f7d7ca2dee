/-!
# Columns

Padding of a text to a least width. A text that is already as wide is left
as it is: nothing is ever cut.
-/

namespace PinnedHeap.Text

/-- As many spaces as `s` is short of `width` characters. -/
def gap (width : Nat) (s : String) : String :=
  String.ofList (List.replicate (width - s.length) ' ')

/-- `s` at the left of a column. -/
def padRight (width : Nat) (s : String) : String := s ++ gap width s

/-- `s` at the right of a column. -/
def padLeft (width : Nat) (s : String) : String := gap width s ++ s

/-- Cells at the left of columns of one width, one space apart. -/
def row (width : Nat) (cells : List String) : String :=
  " ".intercalate (cells.map (padRight width))

example : padLeft 4 "17" = "  17" := by decide
example : padRight 4 "17" = "17  " := by decide
example : padRight 1 "17" = "17" := by decide

end PinnedHeap.Text
