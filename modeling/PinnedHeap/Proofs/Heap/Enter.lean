import Mathlib.Data.List.ReduceOption
import PinnedHeap.Proofs.Heap.Reserve
import PinnedHeap.Proofs.Ranges

/-!
# Entering an object

A new object takes the id that was given up last, or else one that no object
has had. Storage that was on offer becomes its own.
-/

namespace PinnedHeap.Heap

variable {h k : Heap} {away : List Bucket} {id : Nat}

/-- The id that the next object gets. -/
def freshId (h : Heap) : Nat :=
  match h.vacant with
  | id :: _ => id
  | [] => h.objects.length

/-- The heap with an object more. -/
def enter (h : Heap) (o : Object) : Heap :=
  match h.vacant with
  | id :: vacant =>
    { h.setObject id o with vacant, index := h.index.insert o.address id }
  | [] =>
    { h with
      objects := h.objects ++ [some o], index := h.index.insert o.address h.objects.length }

theorem run_enroll (h : Heap) (o : Object) :
    (enroll o).run h = ⟨.ok h.freshId, h.enter o, []⟩ := by
  simp only [enroll, freshId, enter, Action.run_bind, Action.run_read]
  cases hv : h.vacant with
  | nil => simp [Action.run_bind, hv]
  | cons id vacant => simp [Action.run_bind]

theorem Sound.object?_freshId (hh : h.Sound away) : h.object? h.freshId = none := by
  unfold freshId
  cases hv : h.vacant with
  | nil =>
    rw [object?, List.getElem?_eq_none (Nat.le_refl _)]
    rfl
  | cons id vacant =>
    have hmem : id ∈ h.vacant := by rw [hv]; exact List.mem_cons_self
    exact (hh.vacant_iff.1 hmem).2

theorem object?_enter (hv : ∀ id ∈ h.vacant, id < h.objects.length) (o : Object) (j : Nat) :
    (h.enter o).object? j = if j = h.freshId then some o else h.object? j := by
  unfold enter freshId
  cases hvac : h.vacant with
  | nil =>
    show (h.objects ++ [some o])[j]?.join = _
    by_cases hj : j = h.objects.length
    · subst hj
      rw [List.getElem?_concat_length, if_pos rfl]
      rfl
    · rw [if_neg hj, object?]
      rcases Nat.lt_or_ge j h.objects.length with hlt | hge
      · rw [List.getElem?_append_left hlt]
      · rw [List.getElem?_eq_none (by simp; omega), List.getElem?_eq_none hge]
  | cons id vacant =>
    have hmem : id ∈ h.vacant := by rw [hvac]; exact List.mem_cons_self
    exact join_getElem?_set h.objects id j (some o) (hv id hmem)

theorem Sound.object?_enter (hh : h.Sound away) (o : Object) (j : Nat) :
    (h.enter o).object? j = if j = h.freshId then some o else h.object? j :=
  Heap.object?_enter (fun _ hid => (hh.vacant_iff.1 hid).1) o j

theorem enter_frame (h : Heap) (o : Object) :
    h.enter o = { h with
      objects := (h.enter o).objects, vacant := (h.enter o).vacant,
      index := h.index.insert o.address h.freshId } := by
  unfold enter freshId
  split <;> rfl

/-- Nothing exists that did not exist before, the new object aside. -/
theorem mem_existing_enter {o p : Object} (hp : p ∈ (h.enter o).existing) :
    p = o ∨ p ∈ h.existing := by
  have hmem : some p ∈ (h.enter o).objects := List.reduceOption_mem_iff.1 hp
  have hcase : some p ∈ h.objects ∨ some p = some o := by
    unfold enter at hmem
    split at hmem
    · exact List.mem_or_eq_of_mem_set hmem
    · rwa [List.mem_append, List.mem_singleton] at hmem
  rcases hcase with hold | hnew
  · exact .inr (List.reduceOption_mem_iff.2 hold)
  · exact .inl (Option.some.inj hnew)

/-- Filling an empty place adds one to what is there. -/
theorem reduceOption_set_perm {l : List (Option Object)} {i : Nat} (hi : l[i]? = some none)
    (o : Object) : (l.set i (some o)).reduceOption.Perm (o :: l.reduceOption) := by
  induction l generalizing i with
  | nil => cases hi
  | cons x xs ih =>
    cases i with
    | zero =>
      cases hi
      exact List.Perm.refl _
    | succ i =>
      rw [List.set_cons_succ]
      cases x with
      | none => exact ih hi
      | some p => exact ((ih hi).cons p).trans (List.Perm.swap o p _)

theorem Sound.existing_enter (hh : h.Sound away) (o : Object) :
    (h.enter o).existing.Perm (o :: h.existing) := by
  unfold enter
  cases hv : h.vacant with
  | nil =>
    show (h.objects ++ [some o]).reduceOption.Perm _
    rw [List.reduceOption_append, List.reduceOption_singleton]
    exact List.perm_append_singleton o _
  | cons id vacant =>
    have hmem : id ∈ h.vacant := by rw [hv]; exact List.mem_cons_self
    obtain ⟨hlt, hnone⟩ := hh.vacant_iff.1 hmem
    refine reduceOption_set_perm ?_ o
    rw [object?, List.getElem?_eq_getElem hlt, Option.join_some] at hnone
    rw [List.getElem?_eq_getElem hlt, hnone]

theorem Sound.vacant_enter (hh : h.Sound away) (o : Object) :
    (h.enter o).vacant.Nodup ∧
      ∀ {j}, j ∈ (h.enter o).vacant ↔
        j < (h.enter o).objects.length ∧ (h.enter o).object? j = none := by
  have hobj := hh.object?_enter o
  unfold enter freshId at *
  cases hv : h.vacant with
  | nil =>
    simp only [hv] at hobj ⊢
    refine ⟨List.nodup_nil, ?_⟩
    intro j
    have hnone : j ∉ h.vacant := by rw [hv]; exact List.not_mem_nil
    rw [hh.vacant_iff] at hnone
    rw [hobj]
    simp only [List.length_append, List.length_singleton]
    by_cases hj : j = h.objects.length
    · simp [hj]
    · rw [if_neg hj]
      constructor
      · intro hmem
        cases hmem
      · rintro ⟨hlt, hn⟩
        exact absurd ⟨by omega, hn⟩ hnone
  | cons id vacant =>
    simp only [hv] at hobj ⊢
    have hnodup := hv ▸ hh.vacant_nodup
    obtain ⟨hid, hrest⟩ := List.nodup_cons.1 hnodup
    refine ⟨hrest, ?_⟩
    intro j
    rw [hobj]
    simp only [setObject, List.length_set]
    by_cases hj : j = id
    · subst hj
      simp [hid]
    · have : j ∈ h.vacant ↔ j < h.objects.length ∧ h.object? j = none := hh.vacant_iff
      rw [hv, List.mem_cons] at this
      simp only [hj, false_or, if_false] at this ⊢
      exact this

/-- An object may be entered at storage that is on offer. -/
theorem Sound.enter (hh : h.Sound away) {o : Object} (ho : o.Sound)
    (hoff : h.Offers o.address o.footprint) : (h.enter o).Sound away := by
  have hobj : ∀ {j p}, (h.enter o).object? j = some p →
      (j = h.freshId ∧ p = o) ∨ (j ≠ h.freshId ∧ h.object? j = some p) := by
    intro j p hp
    rw [hh.object?_enter] at hp
    split at hp
    · cases hp
      exact .inl ⟨‹_›, rfl⟩
    · exact .inr ⟨‹_›, hp⟩
  have hfree : ∀ {j p}, h.object? j = some p → p.address ≠ o.address := by
    intro j p hp heq
    have h1 := hoff.avoided hp
    have h2 := (hh.object hp).footprint_pos
    have h3 := ho.footprint_pos
    simp only [Object.Avoids] at h1
    omega
  have hframe := enter_frame h o
  have hall : (h.enter o).allBuckets = h.allBuckets := by rw [hframe]; rfl
  have hbuckets : (h.enter o).buckets = h.buckets := by rw [hframe]
  have hindex : (h.enter o).index = h.index.insert o.address h.freshId := by rw [hframe]
  exact {
    bucket := by rw [hall]; exact hh.bucket
    smallest := by
      have hconfig : (h.enter o).config = h.config := by rw [hframe]
      rw [hall, hconfig]
      exact hh.smallest
    owned := by
      have howned : (h.enter o).owned = h.owned := by rw [hframe]
      rw [hall, howned]
      exact hh.owned
    object := by
      intro j p hp
      rcases hobj hp with ⟨-, rfl⟩ | ⟨-, hp⟩
      · exact ho
      · exact hh.object hp
    housed := by
      intro j p hp
      rw [hbuckets]
      rcases hobj hp with ⟨-, rfl⟩ | ⟨-, hp⟩
      · obtain ⟨b, hb, hin⟩ := hoff.housed
        exact ⟨b, List.mem_append_left _ hb, hin⟩
      · exact hh.housed hp
    apart := by
      intro i j p q hp hq hij
      rcases hobj hp with ⟨rfl, rfl⟩ | ⟨-, hp'⟩
      · rcases hobj hq with ⟨rfl, -⟩ | ⟨-, hq'⟩
        · exact absurd rfl hij
        · exact (hoff.avoided hq').symm
      · rcases hobj hq with ⟨-, rfl⟩ | ⟨-, hq'⟩
        · exact hoff.avoided hp'
        · exact hh.apart hp' hq' hij
    index_sorted := by
      rw [hindex]
      exact hh.index_sorted.insert _ _
    index_iff := by
      intro a j
      rw [hindex, AddressIndex.mem_insert hh.index_sorted, hh.index_iff]
      constructor
      · rintro (heq | ⟨⟨p, hp, rfl⟩, -⟩)
        · cases heq
          exact ⟨o, by rw [hh.object?_enter, if_pos rfl], rfl⟩
        · have hj : j ≠ h.freshId := by
            rintro rfl
            rw [hh.object?_freshId] at hp
            cases hp
          exact ⟨p, by rw [hh.object?_enter, if_neg hj, hp], rfl⟩
      · rintro ⟨p, hp, rfl⟩
        rcases hobj hp with ⟨rfl, rfl⟩ | ⟨-, hp⟩
        · exact .inl rfl
        · exact .inr ⟨⟨p, hp, rfl⟩, hfree hp⟩
    vacant_nodup := (hh.vacant_enter o).1
    vacant_iff := (hh.vacant_enter o).2 }

end PinnedHeap.Heap
