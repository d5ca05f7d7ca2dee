import PinnedHeap.Proofs.Heap.Invariant

/-!
# Finding an object by an address

The heap looks at one object only, the last one that starts at or before the
address. Because no two objects share a byte, no other object can have the
address among its bytes: `find?_eq_some` and `find?_eq_none` say that the
search is exact.
-/

namespace PinnedHeap

namespace AddressIndex

theorem takeWhile_eq_filter (a : Nat) {l : List (Nat × Nat)}
    (hl : l.Pairwise fun d e => d.1 < e.1) :
    (l.takeWhile fun e => e.1 ≤ a) = l.filter fun e => e.1 ≤ a := by
  induction l with
  | nil => rfl
  | cons d rest ih =>
    obtain ⟨hd, hrest⟩ := List.pairwise_cons.1 hl
    by_cases hda : d.1 ≤ a
    · simp [hda, ih hrest]
    · have hnone : (rest.filter fun e => e.1 ≤ a) = [] := by
        apply List.filter_eq_nil_iff.2
        intro e he
        have := hd e he
        simp
        omega
      simp [hda, hnone]

theorem floor?_eq_some {x : AddressIndex} (hx : x.Sorted) {a : Nat} {e : Nat × Nat}
    (h : x.floor? a = some e) :
    e ∈ x.entries ∧ e.1 ≤ a ∧ ∀ d ∈ x.entries, d.1 ≤ a → d.1 ≤ e.1 := by
  rw [floor?, takeWhile_eq_filter a hx] at h
  have he := List.mem_filter.1 (List.mem_of_getLast? h)
  refine ⟨he.1, by simpa using he.2, ?_⟩
  intro d hd hda
  obtain ⟨l, hl⟩ := List.getLast?_eq_some_iff.1 h
  have hmem : d ∈ l ++ [e] := hl ▸ List.mem_filter.2 ⟨hd, by simpa using hda⟩
  have hsorted : (l ++ [e]).Pairwise fun d e => d.1 < e.1 := hl ▸ List.Pairwise.filter _ hx
  rcases List.mem_append.1 hmem with hd | hd
  · exact Nat.le_of_lt ((List.pairwise_append.1 hsorted).2.2 d hd e (by simp))
  · exact Nat.le_of_eq (by rw [List.mem_singleton.1 hd])

theorem floor?_eq_none {x : AddressIndex} (hx : x.Sorted) {a : Nat} (h : x.floor? a = none) :
    ∀ d ∈ x.entries, a < d.1 := by
  rw [floor?, takeWhile_eq_filter a hx, List.getLast?_eq_none_iff, List.filter_eq_nil_iff] at h
  intro d hd
  have := h d hd
  simp only [decide_eq_true_eq] at this
  omega

end AddressIndex

namespace Heap

variable {h : Heap} {away : List Bucket}

theorem object_eq_ok {id : Nat} {o : Object} (ho : h.object? id = some o) :
    h.object id = .ok o := by
  simp only [object, ho]

/-- Objects end before the last address. -/
theorem Sound.stop_lt (hh : h.Sound away) (hsup : Buckets.Supplied (h.allBuckets ++ away))
    {id : Nat} {o : Object} (ho : h.object? id = some o) :
    o.address + o.footprint < Word.limit := by
  obtain ⟨b, hb, hin⟩ := hh.housed ho
  have hall := mem_allBuckets_append hb
  have h1 := hsup.stop_lt b hall
  have h2 := (hh.bucket b hall).used_le
  have h3 := hin.stop_le
  simp only [Bucket.stop] at h1
  omega

/-- No byte belongs to two objects. -/
theorem Sound.covers_unique (hh : h.Sound away) {i j a : Nat} {o p : Object}
    (ho : h.object? i = some o) (hp : h.object? j = some p) (hoa : o.Covers a)
    (hpa : p.Covers a) : i = j := by
  by_contra hij
  have h1 := hh.apart ho hp hij
  have h2 := (hh.object ho).len_le
  have h3 := (hh.object hp).len_le
  simp only [Object.Avoids, Object.Covers] at *
  omega

/-- The search for an address ends without a fault: with the object that covers the
address, or with the knowledge that there is none. -/
theorem Sound.find?_cases (hh : h.Sound away)
    (hsup : Buckets.Supplied (h.allBuckets ++ away)) (a : Nat) :
    (∃ id o, h.object? id = some o ∧ o.Covers a ∧ h.find? a = .ok (some id)) ∨
      ((∀ id o, h.object? id = some o → ¬ o.Covers a) ∧ h.find? a = .ok none) := by
  cases hf : h.index.floor? a with
  | none =>
    refine .inr ⟨?_, by simp only [find?, hf]⟩
    intro id o ho hcov
    have := AddressIndex.floor?_eq_none hh.index_sorted hf _ (hh.index_iff.2 ⟨o, ho, rfl⟩)
    have := hcov.1
    omega
  | some e =>
    obtain ⟨start, id⟩ := e
    obtain ⟨hmem, hle, hlast⟩ := AddressIndex.floor?_eq_some hh.index_sorted hf
    obtain ⟨o, ho, rfl⟩ := hh.index_iff.1 hmem
    have hstop := hh.stop_lt hsup ho
    have hlen := (hh.object ho).len_le
    have hcontains : o.contains a = .ok (decide (o.Covers a)) :=
      Object.contains_eq_ok (by omega)
    have hrun : h.find? a = .ok (if o.Covers a then some id else none) := by
      simp only [find?, hf, object_eq_ok ho, bind, Except.bind, hcontains, decide_eq_true_eq]
      rfl
    by_cases hcov : o.Covers a
    · exact .inl ⟨id, o, ho, hcov, by rw [hrun, if_pos hcov]⟩
    · refine .inr ⟨?_, by rw [hrun, if_neg hcov]⟩
      intro j p hp hpa
      -- a later start would have been found; an earlier one ends before `o` begins
      have h1 := hlast (p.address, j) (hh.index_iff.2 ⟨p, hp, rfl⟩) hpa.1
      by_cases hj : j = id
      · subst hj
        rw [ho] at hp
        cases hp
        exact hcov hpa
      · have h2 := hh.apart hp ho hj
        have h3 := (hh.object hp).len_le
        have h4 := (hh.object ho).footprint_pos
        simp only [Object.Avoids, Object.Covers] at *
        omega

theorem Sound.find?_eq_some (hh : h.Sound away)
    (hsup : Buckets.Supplied (h.allBuckets ++ away)) {a id : Nat} :
    h.find? a = .ok (some id) ↔ ∃ o, h.object? id = some o ∧ o.Covers a := by
  rcases hh.find?_cases hsup a with ⟨j, p, hp, hpa, hf⟩ | ⟨hnone, hf⟩
  · rw [hf]
    constructor
    · intro heq
      cases heq
      exact ⟨p, hp, hpa⟩
    · rintro ⟨o, ho, hoa⟩
      rw [hh.covers_unique ho hp hoa hpa]
  · rw [hf]
    constructor
    · intro heq
      cases heq
    · rintro ⟨o, ho, hoa⟩
      exact absurd hoa (hnone id o ho)

end Heap

end PinnedHeap
