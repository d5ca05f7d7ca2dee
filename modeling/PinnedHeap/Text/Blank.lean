/-!
# Blank characters

The characters with the Unicode property `White_Space`, and trimming of them.
-/

namespace PinnedHeap.Text

/-- Closed ranges of blank code points, ascending. -/
def blankRanges : List (Nat × Nat) := [
  (0x9, 0xd), (0x20, 0x20), (0x85, 0x85), (0xa0, 0xa0), (0x1680, 0x1680),
  (0x2000, 0x200a), (0x2028, 0x2029), (0x202f, 0x202f), (0x205f, 0x205f),
  (0x3000, 0x3000)
]

/-- Is the character blank? -/
def isBlank (c : Char) : Bool :=
  blankRanges.any fun r => r.1 ≤ c.toNat && c.toNat ≤ r.2

/-- `cs` without the blank characters at its end. -/
def trimEnd : List Char → List Char
  | [] => []
  | c :: cs =>
    match trimEnd cs with
    | [] => if isBlank c then [] else [c]
    | rest => c :: rest

/-- `cs` without the blank characters at its start and at its end. -/
def trim (cs : List Char) : List Char := trimEnd (cs.dropWhile isBlank)

/-- What is trimmed at the end is blank, and it is all that is blank there. -/
theorem trimEnd_append (cs : List Char) :
    ∃ blanks, cs = trimEnd cs ++ blanks ∧ (∀ c ∈ blanks, isBlank c = true) ∧
      ∀ c ∈ (trimEnd cs).getLast?, isBlank c = false := by
  induction cs with
  | nil => exact ⟨[], by simp [trimEnd]⟩
  | cons c cs ih =>
    obtain ⟨blanks, heq, hblank, hlast⟩ := ih
    unfold trimEnd
    split
    · next hnil =>
      rw [hnil] at heq
      by_cases hc : isBlank c = true
      · refine ⟨c :: cs, by simp [hc], fun d hd => ?_, by simp [hc]⟩
        rcases List.mem_cons.1 hd with rfl | hd
        · exact hc
        · exact hblank d (by simpa [heq] using hd)
      · exact ⟨cs, by simp [hc], fun d hd => hblank d (by simpa [heq] using hd), by simp [hc]⟩
    · next rest hne =>
      refine ⟨blanks, congrArg (c :: ·) heq, hblank, fun d hd => ?_⟩
      apply hlast d
      cases hr : trimEnd cs with
      | nil => exact absurd hr hne
      | cons a as => simpa [hr, List.getLast?_cons_cons] using hd

end PinnedHeap.Text
