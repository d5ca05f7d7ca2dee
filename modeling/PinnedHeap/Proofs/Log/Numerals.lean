import PinnedHeap.Log.Threshold
import PinnedHeap.Proofs.Trimming

/-!
# What is read as a threshold

A numeral is one decimal digit or more, behind a plus sign that may be missing.
A text is read as the threshold `n` exactly if it is a numeral with the value
`n` between white space, and `n` is at most 255.

Digits are read from the left, and reading ends at the first one that leads
past 255. That this is the same as to look at the value of all of them is
`continue?_eq_some`: further digits never make a number smaller.
-/

namespace PinnedHeap.Log.Threshold

/-- One decimal digit or more. -/
def Digits (cs : List Char) : Prop := cs ≠ [] ∧ ∀ c ∈ cs, c.isDigit = true

/-- How a number is written: in digits, behind a plus sign that may be missing. -/
inductive Numeral : List Char → Nat → Prop where
  | plain {ds : List Char} (h : Digits ds) : Numeral ds (Nat.ofDigitChars 10 ds 0)
  | signed {ds : List Char} (h : Digits ds) : Numeral ('+' :: ds) (Nat.ofDigitChars 10 ds 0)

/-- What keeps a text without white space at its ends from being read. -/
inductive Flaw (cs : List Char) : Prop where
  /-- There is no digit: nothing at all, or signs alone. -/
  | bare (h : ∀ c ∈ cs, c.isDigit = false)
  /-- There is what stands in no numeral: a minus sign, white space, a digit of another script, or
  any other character. -/
  | stray {c : Char} (hc : c ∈ cs) (hplus : c ≠ '+') (hdigit : c.isDigit = false)
  /-- A plus sign stands elsewhere than in front. -/
  | late (h : '+' ∈ cs.tail)
  /-- The number is no threshold. -/
  | excess {n : Nat} (h : Numeral cs n) (hn : 255 < n)

variable {c : Char} {cs front body back : List Char} {s : String} {m n : Nat}

/-! ## Digits -/

theorem digit?_of_isDigit (h : c.isDigit = true) : digit? c = some (c.toNat - '0'.toNat) := by
  have hc := Char.isDigit_iff_toNat.1 h
  exact if_pos ⟨hc.1, hc.2⟩

theorem digit?_of_not (h : c.isDigit = false) : digit? c = none := by
  refine if_neg fun hc => ?_
  rw [Char.isDigit_iff_toNat.2 ⟨hc.1, hc.2⟩] at h
  cases h

theorem le_ofDigitChars (n : Nat) (cs : List Char) : n ≤ Nat.ofDigitChars 10 cs n := by
  induction cs generalizing n with
  | nil => exact Nat.le_of_eq Nat.ofDigitChars_nil.symm
  | cons c cs ih =>
    rw [Nat.ofDigitChars_cons]
    calc
      n ≤ 10 * n + (c.toNat - '0'.toNat) := by omega
      _ ≤ _ := ih _

theorem continue?_cons_of_isDigit (h : c.isDigit = true) :
    continue? n (c :: cs) =
      if 10 * n + (c.toNat - '0'.toNat) ≤ greatest then
        continue? (10 * n + (c.toNat - '0'.toNat)) cs
      else none := by
  rw [continue?, digit?_of_isDigit h]
  rfl

/-- Digits are read to the end exactly if the value of all of them is a threshold. -/
theorem continue?_eq_some (hn : n ≤ 255) :
    continue? n cs = some m ↔
      (∀ c ∈ cs, c.isDigit = true) ∧ Nat.ofDigitChars 10 cs n = m ∧ m ≤ 255 := by
  induction cs generalizing n with
  | nil =>
    rw [continue?, Nat.ofDigitChars_nil, Option.some.injEq]
    exact ⟨fun h => ⟨nofun, h, h ▸ hn⟩, fun h => h.2.1⟩
  | cons c cs ih =>
    rw [Nat.ofDigitChars_cons, List.forall_mem_cons]
    cases hc : c.isDigit with
    | false => simp [continue?, digit?_of_not hc]
    | true =>
      rw [continue?_cons_of_isDigit hc]
      by_cases hle : 10 * n + (c.toNat - '0'.toNat) ≤ greatest
      · rw [if_pos hle, ih hle, and_iff_right rfl]
      · rw [if_neg hle]
        refine ⟨nofun, fun ⟨_, hm, hm255⟩ => ?_⟩
        have hgrow := le_ofDigitChars (10 * n + (c.toNat - '0'.toNat)) cs
        have hg : greatest = 255 := rfl
        omega

theorem digits?_eq_some :
    digits? cs = some m ↔ Digits cs ∧ Nat.ofDigitChars 10 cs 0 = m ∧ m ≤ 255 := by
  cases cs with
  | nil => simp [digits?, Digits]
  | cons c cs =>
    rw [digits?, continue?_eq_some (Nat.zero_le 255), Digits, and_iff_right (List.cons_ne_nil c cs)]
    exact nofun

theorem digits_printed (zeros n : Nat) :
    Digits (List.replicate zeros '0' ++ (toString n).toList) := by
  rw [Nat.toString_eq_ofList_toDigits, String.toList_ofList]
  refine ⟨fun h => Nat.toDigits_ne_nil (List.append_eq_nil_iff.1 h).2, fun c hc => ?_⟩
  rcases List.mem_append.1 hc with hc | hc
  · rw [List.eq_of_mem_replicate hc]
    rfl
  · exact Nat.isDigit_of_mem_toDigits (by decide) (by decide) hc

theorem ofDigitChars_printed (zeros n : Nat) :
    Nat.ofDigitChars 10 (List.replicate zeros '0' ++ (toString n).toList) 0 = n := by
  rw [Nat.toString_eq_ofList_toDigits, String.toList_ofList, Nat.ofDigitChars_append,
    Nat.ofDigitChars_replicate_zero, Nat.mul_zero, Nat.ofDigitChars_ten_toDigits]

/-! ## Numerals -/

theorem Digits.not_sign (h : Digits ('+' :: cs)) : False := by
  have hdigit := h.2 '+' List.mem_cons_self
  exact absurd hdigit (by decide)

theorem numeral_signed_iff :
    Numeral ('+' :: cs) n ↔ Digits cs ∧ Nat.ofDigitChars 10 cs 0 = n := by
  constructor
  · intro h
    cases h with
    | plain h => exact h.not_sign.elim
    | signed h => exact ⟨h, rfl⟩
  · rintro ⟨h, rfl⟩
    exact .signed h

theorem numeral_plain_iff (hcs : ∀ ds, cs ≠ '+' :: ds) :
    Numeral cs n ↔ Digits cs ∧ Nat.ofDigitChars 10 cs 0 = n := by
  constructor
  · intro h
    cases h with
    | plain h => exact ⟨h, rfl⟩
    | signed => exact absurd rfl (hcs _)
  · rintro ⟨h, rfl⟩
    exact .plain h

theorem number?_eq_some : number? cs = some n ↔ Numeral cs n ∧ n ≤ 255 := by
  unfold number?
  split
  · rw [digits?_eq_some, numeral_signed_iff, and_assoc]
  · next hcs => rw [digits?_eq_some, numeral_plain_iff hcs, and_assoc]

namespace Numeral

theorem unique (hm : Numeral cs m) (hn : Numeral cs n) : m = n := by
  cases hn with
  | signed => exact (numeral_signed_iff.1 hm).2.symm
  | plain h =>
    cases hm with
    | plain => rfl
    | signed => exact h.not_sign.elim

theorem exists_digit (h : Numeral cs n) : ∃ c ∈ cs, c.isDigit = true := by
  cases h with
  | plain h =>
    obtain ⟨c, hc⟩ := List.exists_mem_of_ne_nil _ h.1
    exact ⟨c, hc, h.2 c hc⟩
  | signed h =>
    obtain ⟨c, hc⟩ := List.exists_mem_of_ne_nil _ h.1
    exact ⟨c, List.mem_cons_of_mem _ hc, h.2 c hc⟩

theorem mem (h : Numeral cs n) (hc : c ∈ cs) : c = '+' ∨ c.isDigit = true := by
  cases h with
  | plain h => exact .inr (h.2 c hc)
  | signed h => exact (List.mem_cons.1 hc).imp_right (h.2 c)

theorem not_whiteSpace (h : Numeral cs n) (hc : c ∈ cs) : c ∉ Text.whiteSpace := by
  rw [← Text.isBlank_eq_false_iff]
  rcases h.mem hc with rfl | hdigit
  · decide
  · exact Text.isBlank_of_isDigit hdigit

theorem mem_tail (h : Numeral cs n) (hc : c ∈ cs.tail) : c.isDigit = true := by
  cases h with
  | plain h => exact h.2 c (List.mem_of_mem_tail hc)
  | signed h => exact h.2 c hc

/-- Between white space, a numeral is what is left without it. -/
theorem stripped (h : Numeral body n) (hfront : ∀ c ∈ front, c ∈ Text.whiteSpace)
    (hback : ∀ c ∈ back, c ∈ Text.whiteSpace) :
    Text.Stripped (front ++ body ++ back) body where
  around := ⟨front, back, rfl, hfront, hback⟩
  first _ hc := h.not_whiteSpace (List.mem_of_mem_head? hc)
  last _ hc := h.not_whiteSpace (List.mem_of_mem_getLast? hc)

end Numeral

/-- Digits that a plus sign may precede are a numeral. -/
theorem exists_numeral (hdigit : ∃ c ∈ cs, c.isDigit = true)
    (hmem : ∀ c ∈ cs, c = '+' ∨ c.isDigit = true) (htail : '+' ∉ cs.tail) :
    ∃ n, Numeral cs n := by
  obtain ⟨d, hd, hdigit⟩ := hdigit
  match cs with
  | c :: cs =>
    have hrest (e : Char) (he : e ∈ cs) : e.isDigit = true :=
      (hmem e (List.mem_cons_of_mem c he)).resolve_left fun hplus => htail (hplus ▸ he)
    rcases hmem c List.mem_cons_self with rfl | hc
    · -- the sign is no digit, so there is one behind it
      have hne : d ≠ '+' := fun h => absurd (h ▸ hdigit) (by decide)
      have hmem := (List.mem_cons.1 hd).resolve_left hne
      exact ⟨_, .signed ⟨List.ne_nil_of_mem hmem, hrest⟩⟩
    · exact ⟨_, .plain ⟨List.cons_ne_nil c cs, List.forall_mem_cons.2 ⟨hc, hrest⟩⟩⟩

namespace Flaw

theorem lt (hf : Flaw cs) (h : Numeral cs n) : 255 < n := by
  cases hf with
  | bare hno =>
    obtain ⟨c, hc, hdigit⟩ := h.exists_digit
    rw [hno c hc] at hdigit
    cases hdigit
  | stray hc hplus hno =>
    rcases h.mem hc with hc | hc
    · exact absurd hc hplus
    · rw [hno] at hc
      cases hc
  | late htail => exact absurd (h.mem_tail htail) (by decide)
  | excess h' hn => exact h.unique h' ▸ hn

/-- There is no other flaw. -/
theorem of_not (hno : ∀ n, Numeral cs n → 255 < n) : Flaw cs := by
  by_cases hdigit : ∃ c ∈ cs, c.isDigit = true
  · by_cases hmem : ∀ c ∈ cs, c = '+' ∨ c.isDigit = true
    · by_cases htail : '+' ∈ cs.tail
      · exact .late htail
      · obtain ⟨n, hn⟩ := exists_numeral hdigit hmem htail
        exact .excess hn (hno n hn)
    · simp only [not_forall, not_or, Bool.not_eq_true] at hmem
      obtain ⟨c, hc, hplus, hdigit⟩ := hmem
      exact .stray hc hplus hdigit
  · exact .bare fun c hc => Bool.eq_false_iff.2 fun h => hdigit ⟨c, hc, h⟩

end Flaw

/-! ## Texts -/

theorem parse?_eq_some :
    parse? s = some n ↔ ∃ body, Text.Stripped s.toList body ∧ Numeral body n ∧ n ≤ 255 := by
  rw [parse?, number?_eq_some]
  constructor
  · exact fun h => ⟨_, Text.stripped_trim _, h⟩
  · rintro ⟨body, hbody, h⟩
    exact hbody.trim_eq ▸ h

theorem parse?_eq_none :
    parse? s = none ↔ ∃ body, Text.Stripped s.toList body ∧ Flaw body := by
  constructor
  · intro hnone
    refine ⟨_, Text.stripped_trim _, .of_not fun n hn => Nat.lt_of_not_le fun hle => ?_⟩
    rw [parse?_eq_some.2 ⟨_, Text.stripped_trim _, hn, hle⟩] at hnone
    cases hnone
  · rintro ⟨body, hbody, hflaw⟩
    refine Option.eq_none_iff_forall_ne_some.2 fun n hn => ?_
    obtain ⟨body', hbody', hnumeral, hle⟩ := parse?_eq_some.1 hn
    have hsame : body' = body := hbody'.trim_eq.symm.trans hbody.trim_eq
    have hlt := hflaw.lt (hsame ▸ hnumeral)
    omega

/-- A number as it is printed, with zeros and a plus sign in front. -/
theorem numeral_printed (zeros n : Nat) {sign : List Char} (h : sign = [] ∨ sign = ['+']) :
    Numeral (sign ++ List.replicate zeros '0' ++ (toString n).toList) n := by
  have hvalue := ofDigitChars_printed zeros n
  rw [List.append_assoc]
  rcases h with rfl | rfl
  · have hplain := Numeral.plain (digits_printed zeros n)
    rwa [hvalue] at hplain
  · have hsigned := Numeral.signed (digits_printed zeros n)
    rwa [hvalue] at hsigned

/-- What is read from a text. -/
structure Reading (s : String) : Prop where
  /-- A threshold is read exactly from the numerals for 0 to 255. -/
  reads_iff : ∀ n, parse? s = some n ↔
    ∃ body, Text.Stripped s.toList body ∧ Numeral body n ∧ n ≤ 255
  /-- Nothing is read exactly from what has a flaw. -/
  refused_iff : parse? s = none ↔ ∃ body, Text.Stripped s.toList body ∧ Flaw body
  /-- A threshold that was printed is read back, however many zeros stand in front of it and
  whatever white space stands around it. -/
  printed : ∀ n, n ≤ 255 → ∀ sign zeros front back, (sign = [] ∨ sign = ['+']) →
    (∀ c ∈ front, c ∈ Text.whiteSpace) → (∀ c ∈ back, c ∈ Text.whiteSpace) →
    s.toList =
      front ++ (sign ++ List.replicate zeros '0' ++ (toString n).toList) ++ back →
    parse? s = some n

/-- Of every text: the number of the numeral that it is, or nothing if it is none or one that is
too great. -/
theorem numerals_are_read (s : String) : Reading s where
  reads_iff n := parse?_eq_some
  refused_iff := parse?_eq_none
  printed n hn sign zeros front back hsign hfront hback hs := by
    have hnumeral := numeral_printed zeros n hsign
    exact parse?_eq_some.2 ⟨_, hs ▸ hnumeral.stripped hfront hback, hnumeral, hn⟩

/-- The greatest threshold behind an ideographic space, a sign and zeros; and the number that
follows it. -/
theorem padded_greatest_is_read :
    Reading "\u3000+000255\n" ∧ parse? "\u3000+000255\n" = some 255 ∧ parse? "256" = none := by
  refine ⟨numerals_are_read _, ?_, ?_⟩
  · exact (numerals_are_read _).printed 255 (by decide) ['+'] 3 ['\u3000'] ['\n'] (.inr rfl)
      (by simp [Text.whiteSpace]) (by simp [Text.whiteSpace]) (by decide)
  · have hnumeral : Numeral "256".toList 256 := .plain ⟨by decide, by simp⟩
    have hstripped : Text.Stripped "256".toList "256".toList := Text.stripped_iff.2 (by decide)
    exact (numerals_are_read _).refused_iff.2 ⟨_, hstripped, .excess hnumeral (by decide)⟩

end PinnedHeap.Log.Threshold
