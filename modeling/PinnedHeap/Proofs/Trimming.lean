import Mathlib.Data.List.TakeWhile
import PinnedHeap.Text.Blank

/-!
# Trimming

The characters with the property `White_Space`, one by one, and what is left of
a text without those at its start and at its end. `Stripped` says what that is;
every text has exactly one such rest, and `trim` finds it.
-/

namespace PinnedHeap.Text

/-- The characters with the Unicode property `White_Space`. -/
def whiteSpace : List Char := [
  '\t', '\n', '\x0b', '\x0c', '\r', ' ', '\u0085', '\u00a0', '\u1680',
  '\u2000', '\u2001', '\u2002', '\u2003', '\u2004', '\u2005', '\u2006',
  '\u2007', '\u2008', '\u2009', '\u200a', '\u2028', '\u2029', '\u202f',
  '\u205f', '\u3000'
]

/-- `rest` is `cs` without the white space at its start and at its end. -/
structure Stripped (cs rest : List Char) : Prop where
  around : ∃ front back, cs = front ++ rest ++ back ∧
    (∀ c ∈ front, c ∈ whiteSpace) ∧ ∀ c ∈ back, c ∈ whiteSpace
  first : ∀ c ∈ rest.head?, c ∉ whiteSpace
  last : ∀ c ∈ rest.getLast?, c ∉ whiteSpace

variable {c : Char} {cs front rest back : List Char}

/-- The ranges of blank code points are the characters with the property. -/
theorem isBlank_iff : isBlank c = true ↔ c ∈ whiteSpace := by
  simp only [isBlank, blankRanges, List.any_cons, List.any_nil, Bool.or_false, Bool.or_eq_true,
    Bool.and_eq_true, decide_eq_true_eq, whiteSpace, List.mem_cons, List.not_mem_nil, or_false,
    ← Char.toNat_inj]
  simp only [Char.reduceToNat]
  omega

theorem isBlank_eq_false_iff : isBlank c = false ↔ c ∉ whiteSpace := by
  rw [← isBlank_iff, Bool.not_eq_true]

theorem isBlank_of_isDigit (h : c.isDigit = true) : isBlank c = false := by
  have hc : 48 ≤ c.toNat ∧ c.toNat ≤ 57 := Char.isDigit_iff_toNat.1 h
  simp only [isBlank, blankRanges, List.any_cons, List.any_nil, Bool.or_false,
    Bool.or_eq_false_iff, Bool.and_eq_false_iff, decide_eq_false_iff_not]
  omega

/-! ## The end of a text -/

theorem trimEnd_of_blank (h : ∀ c ∈ cs, isBlank c = true) : trimEnd cs = [] := by
  induction cs with
  | nil => rfl
  | cons c cs ih =>
    obtain ⟨hc, hcs⟩ := List.forall_mem_cons.1 h
    simp [trimEnd, ih hcs, hc]

theorem trimEnd_append_of_blank (h : ∀ c ∈ back, isBlank c = true) :
    trimEnd (cs ++ back) = trimEnd cs := by
  induction cs with
  | nil => exact trimEnd_of_blank h
  | cons c cs ih => simp only [List.cons_append, trimEnd, ih]

theorem trimEnd_eq_self (h : ∀ c ∈ cs.getLast?, isBlank c = false) : trimEnd cs = cs := by
  obtain ⟨blanks, hcs, hblank, -⟩ := trimEnd_append cs
  cases hlast : blanks.getLast? with
  | none =>
    rw [List.getLast?_eq_none_iff.1 hlast, List.append_nil] at hcs
    exact hcs.symm
  | some c =>
    have hc := h c (by rw [hcs, List.getLast?_append, hlast]; rfl)
    exact absurd (hblank c (List.mem_of_getLast? hlast)) (by simp [hc])

/-! ## Both ends -/

theorem trim_append (hfront : ∀ c ∈ front, isBlank c = true)
    (hrest : ∀ c ∈ rest.head?, isBlank c = false) (hback : ∀ c ∈ back, isBlank c = true) :
    trim (front ++ rest ++ back) = trimEnd rest := by
  rw [trim, List.append_assoc, List.dropWhile_append_of_pos hfront]
  cases rest with
  | nil => rw [List.nil_append, List.dropWhile_eq_nil_iff.2 hback]
  | cons c rest =>
    rw [List.cons_append, List.dropWhile_cons_of_neg (by simp [hrest c rfl]),
      ← List.cons_append, trimEnd_append_of_blank hback]

theorem stripped_trim (cs : List Char) : Stripped cs (trim cs) := by
  obtain ⟨back, hback, hblank, hlast⟩ := trimEnd_append (cs.dropWhile isBlank)
  change cs.dropWhile isBlank = trim cs ++ back at hback
  have hfirst (c : Char) (hc : c ∈ (trim cs).head?) : isBlank c = false := by
    have hhead : (cs.dropWhile isBlank).head? = some c := by
      rw [hback, List.head?_append, Option.mem_def.1 hc, Option.some_or]
    have hnot := List.head?_dropWhile_not isBlank cs
    rwa [hhead] at hnot
  exact {
    around := by
      refine ⟨cs.takeWhile isBlank, back, ?_, fun c hc => ?_, fun c hc => ?_⟩
      · rw [List.append_assoc, ← hback, List.takeWhile_append_dropWhile]
      · exact isBlank_iff.1 (List.all_eq_true.1 List.all_takeWhile c hc)
      · exact isBlank_iff.1 (hblank c hc)
    first := fun c hc => isBlank_eq_false_iff.1 (hfirst c hc)
    last := fun c hc => isBlank_eq_false_iff.1 (hlast c hc) }

theorem Stripped.trim_eq (h : Stripped cs rest) : trim cs = rest := by
  obtain ⟨front, back, rfl, hfront, hback⟩ := h.around
  rw [trim_append (fun c hc => isBlank_iff.2 (hfront c hc))
    (fun c hc => isBlank_eq_false_iff.2 (h.first c hc))
    (fun c hc => isBlank_iff.2 (hback c hc))]
  exact trimEnd_eq_self fun c hc => isBlank_eq_false_iff.2 (h.last c hc)

/-- A text has one rest without white space at its ends, and trimming finds it. -/
theorem stripped_iff : Stripped cs rest ↔ trim cs = rest :=
  ⟨Stripped.trim_eq, fun h => h ▸ stripped_trim cs⟩

end PinnedHeap.Text
