import PinnedHeap.Text.Unprintable
import PinnedHeap.Text.Extending

/-!
# Quoted text

Text between double quotes, with every character that would not show as
itself written as an escape: the quote and the backslash, the usual control
characters by a letter, and all else that is unprintable, or would join the
character in front of it, by its code point.
-/

namespace PinnedHeap.Text

/-- The escape of a character by its code point. -/
def codePointEscape (c : Char) : List Char :=
  ['\\', 'u', '\x7b'] ++ Nat.toDigits 16 c.toNat ++ ['\x7d']

/-- How one character is written between double quotes. -/
def quoteChar (c : Char) : List Char :=
  match c with
  | '\x00' => ['\\', '0']
  | '\t' => ['\\', 't']
  | '\r' => ['\\', 'r']
  | '\n' => ['\\', 'n']
  | '\\' => ['\\', '\\']
  | '"' => ['\\', '"']
  | c =>
    if ' ' ≤ c ∧ c ≤ '~' then [c]
    else if isExtending c || isUnprintable c then codePointEscape c
    else [c]

/-- `s` between double quotes. -/
def quoted (s : String) : String :=
  "\"" ++ String.ofList (s.toList.flatMap quoteChar) ++ "\""

example : quoted "a\"b" = "\"a\\\"b\"" := by decide
example : quoted "it's\n" = "\"it's\\n\"" := by decide

end PinnedHeap.Text
