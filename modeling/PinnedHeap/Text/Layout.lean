/-!
# Records and sequences as text

How a structured value is written on one line: `Name { a: 1, b: 2 }`.
-/

namespace PinnedHeap.Text

/-- A record by its name, its fields' names and the texts of their values. -/
def record (name : String) (fields : List (String × String)) : String :=
  name ++ " \x7b " ++
    ", ".intercalate (fields.map fun (field, value) => field ++ ": " ++ value) ++ " \x7d"

/-- A value that may be missing. -/
def optional : Option String → String
  | none => "None"
  | some value => "Some(" ++ value ++ ")"

/-- A truth value. -/
def truth (b : Bool) : String := if b then "true" else "false"

example : record "Point" [("x", "1"), ("y", "2")] = "Point \x7b x: 1, y: 2 \x7d" := by decide

end PinnedHeap.Text
