import PinnedHeap.Proofs.Heap.Reserve
import PinnedHeap.Proofs.Heap.Volume
import PinnedHeap.Proofs.Ranges

/-!
# Settling objects

A collection decides about one object after the other. `Heap.Settles` lists
what can become of one: its place is vacant, it is given up, it is held where
it is, or it is moved. `Heap.SettlesAll` is a run of such decisions, and the
facts about a collection are read off it by induction: the invariant is kept,
an object that is not decided about stays untouched, and one that is keeps its
record and its bytes.

That no decision breaks off is a matter of numbers alone, not of places
(`Modest`): it is proved first, so that what follows need not speak of faults.
-/

namespace PinnedHeap.Heap

variable {h k : Heap} {away : List Bucket} {id : Nat} {ids past rest : List Nat} {t t' : Tally}
  {ns : List Notice}

/-- What becomes of the object at a position of the table. -/
inductive Settles (h : Heap) (id : Nat) (t : Tally) : Tally → Heap → Prop where
  | vacant (ho : h.object? id = none) : Settles h id t t h
  | reclaimed {o : Object} (ho : h.object? id = some o) (hm : o.marked = false) :
      Settles h id t { t with reclaimed := t.reclaimed + 1 } (h.reclaim id o)
  | held {o : Object} (ho : h.object? id = some o) (hm : o.marked = true)
      (hr : o.isRetained = true) :
      Settles h id t { t with held := t.held + 1 }
        { h.setObject id { o with marked := false } with storage := h.storage + o.footprint }
  | moved {o : Object} {a : Nat} {k : Heap} (ho : h.object? id = some o) (hm : o.marked = true)
      (hr : o.isRetained = false)
      (hres : Reserves (h.setObject id { o with marked := false }) o.footprint a k) :
      Settles h id t { t with moved := t.moved + 1 } (k.relocate id { o with marked := false } a)

/-- What becomes of the objects at positions of the table, one after the other. -/
inductive SettlesAll : Heap → List Nat → Tally → Tally → Heap → Prop where
  | nil (h : Heap) (t : Tally) : SettlesAll h [] t t h
  | cons {h k l : Heap} {id : Nat} {ids : List Nat} {t u v : Tally} (head : Settles h id t u k)
      (rest : SettlesAll k ids u v l) : SettlesAll h (id :: ids) t v l

/-- The objects are made of whole words. -/
def Worded (h : Heap) : Prop := ∀ id o, h.object? id = some o → o.footprint % Word.size = 0

theorem Sound.worded (hh : h.Sound away) : h.Worded :=
  fun _ _ ho => (hh.object ho).footprint_words

theorem Worded.of_sites (hw : h.Worded) (hs : Sites h k) : k.Worded := by
  intro id p hp
  obtain ⟨o, ho, hsite⟩ := hs.object? hp
  simp only [Object.site, Prod.mk.injEq] at hsite
  rw [← hsite.2.2]
  exact hw id o ho

/-! ## Running `settle` -/

theorem run_hold (h : Heap) (id : Nat) (o : Object) :
    (hold id o).run h =
      if h.storage + o.footprint < Word.limit then
        ⟨.ok (), { h.setObject id o with storage := h.storage + o.footprint }, []⟩
      else ⟨.error .sumOverflow, h.setObject id o, []⟩ := by
  have hst : (h.setObject id o).storage = h.storage := rfl
  by_cases hs : h.storage + o.footprint < Word.limit
  · simp only [hold, Action.run_bind, Action.run_update, Action.run_read, hst,
      Word.add_of_lt hs, if_pos hs]
    rfl
  · simp only [hold, Action.run_bind, Action.run_update, Action.run_read, hst,
      Word.add_eq_error.2 ⟨hs, rfl⟩, if_neg hs]
    rfl

theorem run_evacuate (h : Heap) (id : Nat) (o : Object) :
    (evacuate id o).run h =
      match (reserve o.footprint).run (h.setObject id o) with
      | ⟨.ok a, k, ns⟩ => ⟨.ok (), k.relocate id o a, ns⟩
      | ⟨.error e, k, ns⟩ => ⟨.error e, k, ns⟩ := by
  simp only [evacuate, Action.run_bind, Action.run_update, List.nil_append]
  rcases (reserve o.footprint).run (h.setObject id o) with ⟨r, k, ns⟩
  cases r with
  | error e => rfl
  | ok a => simp

/-- A decision is made, or a number gets too large in making it. -/
theorem settle_cases (h : Heap) (id : Nat) (t : Tally)
    (hw : ∀ o, h.object? id = some o → o.footprint % Word.size = 0) :
    (∃ t' k ns, (settle id t).run h = ⟨.ok t', k, ns⟩ ∧ Settles h id t t' k) ∨
    (∃ o e k ns, h.object? id = some o ∧ o.marked = true ∧
      (settle id t).run h = ⟨.error e, k, ns⟩ ∧
      k = { h.setObject id { o with marked := false } with
        storage := k.storage, wantsCollection := k.wantsCollection } ∧
      (¬ h.storage + o.footprint < Word.limit ∨ ¬ h.CanCreate o.footprint)) := by
  simp only [settle, Action.run_bind, Action.run_read]
  cases ho : h.object? id with
  | none => exact .inl ⟨t, h, [], rfl, .vacant ho⟩
  | some o =>
    have hwo := hw o ho
    cases hm : o.marked with
    | false => exact .inl ⟨_, _, [], by simp [hm, Action.run_bind], .reclaimed ho hm⟩
    | true =>
      cases hr : o.isRetained with
      | true =>
        simp only [hm, hr, Bool.not_true, Bool.false_eq_true, if_false, if_true, Action.run_bind,
          run_hold]
        by_cases hs : h.storage + o.footprint < Word.limit
        · refine .inl ⟨_, _, [], ?_, .held ho hm hr⟩
          simp [hs]
        · refine .inr ⟨o, .sumOverflow, h.setObject id { o with marked := false }, [], rfl, hm,
            ?_, rfl, .inl hs⟩
          simp [hs]
      | false =>
        simp only [hm, hr, Bool.not_true, Bool.false_eq_true, if_false, Action.run_bind,
          run_evacuate]
        rcases reserve_cases (h.setObject id { o with marked := false }) hwo with
          ⟨-, a, k, ns, hrun, hres⟩ | ⟨hs, hrun⟩ | ⟨-, -, hcan, hrun⟩
        · refine .inl ⟨_, _, ns, ?_, .moved ho hm hr hres⟩
          simp [hrun]
        · refine .inr ⟨o, .sumOverflow, h.setObject id { o with marked := false }, [], rfl, hm,
            ?_, rfl, .inl hs⟩
          simp [hrun]
        · refine .inr ⟨o, (h.setObject id { o with marked := false }).creationFault o.footprint,
            (h.setObject id { o with marked := false }).charged o.footprint, [], rfl, hm, ?_, rfl,
            .inr fun hc => hcan ⟨hc.1, hc.2, hc.3⟩⟩
          simp [hrun]

/-! ## The numbers -/

/-- The objects are made of whole words and are no larger than what can be had. -/
structure Modest (h : Heap) : Prop where
  words : h.Worded
  small : ∀ {id o}, h.object? id = some o → o.footprint < ample
  smallest : ∀ {id o}, h.object? id = some o →
    Word.roundUp h.config.smallestBucket ≤ Word.largestBlock

/-- Bytes of storage of the object with an id, if it exists and is marked. -/
def dueAt (h : Heap) (id : Nat) : Nat :=
  (h.object? id).elim 0 fun o => if o.marked then o.footprint else 0

/-- Bytes of storage of the marked ones among the objects with the ids. -/
def due (h : Heap) (ids : List Nat) : Nat := (ids.map h.dueAt).sum

theorem Modest.canCreate (hm : h.Modest) {o : Object} (ho : h.object? id = some o)
    (howned : h.owned < ample) : h.CanCreate o.footprint := by
  have hsmall := hm.small ho
  have hwords := hm.words _ o ho
  have hsmallest := hm.smallest ho
  have hcap : h.newCapacity o.footprint ≤ Word.largestBlock := by
    rcases Nat.le_total (bucketFactor * o.footprint) h.config.smallestBucket with hle | hle
    · rw [newCapacity, Nat.max_eq_right hle]
      exact hsmallest
    · rw [newCapacity, Nat.max_eq_left hle]
      refine Nat.le_trans (Word.roundUp_le ?_ (Nat.le_refl _)) ?_
      · simp only [bucketFactor, Word.size] at *
        omega
      · simp only [bucketFactor, Word.largestBlock, ample] at *
        omega
  refine ⟨?_, hcap, ?_⟩
  · simp only [bucketFactor, Word.limit, ample] at *
    omega
  · simp only [Word.largestBlock, Word.limit, ample] at *
    omega

theorem Sound.modest (hh : h.Sound away) (howned : h.owned < ample) : h.Modest where
  words := hh.worded
  small ho := Nat.lt_of_le_of_lt (hh.footprint_le ho) howned
  smallest ho := by
    obtain ⟨b, hb, -⟩ := hh.housed ho
    have hall := mem_allBuckets_append hb
    exact Nat.le_trans (hh.smallest b hall) (hh.bucket b hall).capacity_le

theorem dueAt_le (h : Heap) (id : Nat) : h.dueAt id ≤ h.footprintAt id := by
  unfold dueAt footprintAt
  cases h.object? id with
  | none => exact Nat.le_refl _
  | some o =>
    simp only [Option.elim_some]
    split <;> omega

@[simp] theorem due_cons (h : Heap) (id : Nat) (ids : List Nat) :
    h.due (id :: ids) = h.dueAt id + h.due ids := by
  rw [due, List.map_cons, List.sum_cons, due]

theorem due_le_volume (h : Heap) (ids : List Nat) : h.due ids ≤ h.volume ids := by
  induction ids with
  | nil => exact Nat.le_refl _
  | cons id ids ih =>
    have hid := h.dueAt_le id
    rw [due_cons, volume, List.map_cons, List.sum_cons]
    exact Nat.add_le_add hid ih

theorem due_congr {ids : List Nat} (hobj : ∀ j ∈ ids, k.object? j = h.object? j) :
    k.due ids = h.due ids := by
  unfold due dueAt
  rw [List.map_congr_left]
  intro j hj
  rw [hobj j hj]

/-! ## One decision -/

/-- What an operation on objects has no business with. -/
structure SameSettings (h k : Heap) : Prop where
  config : k.config = h.config
  target : k.target = h.target
  inhibitors : k.inhibitors = h.inhibitors
  collections : k.collections = h.collections

theorem SameSettings.refl (h : Heap) : SameSettings h h := ⟨rfl, rfl, rfl, rfl⟩

theorem SameSettings.trans {h k l : Heap} (hk : SameSettings h k) (kl : SameSettings k l) :
    SameSettings h l :=
  ⟨kl.config.trans hk.config, kl.target.trans hk.target, kl.inhibitors.trans hk.inhibitors,
    kl.collections.trans hk.collections⟩

theorem Reserves.settings {bytes a : Nat} (hr : Reserves h bytes a k) : SameSettings h k := by
  rw [hr.frame]
  exact ⟨rfl, rfl, rfl, rfl⟩

namespace Settles

theorem settings (hs : Settles h id t t' k) : SameSettings h k := by
  cases hs with
  | vacant ho => exact .refl h
  | reclaimed ho hm => exact ⟨rfl, rfl, rfl, rfl⟩
  | held ho hm hr => exact ⟨rfl, rfl, rfl, rfl⟩
  | moved ho hm hr hres =>
    exact ⟨hres.settings.config, hres.settings.target, hres.settings.inhibitors,
      hres.settings.collections⟩

theorem length (hs : Settles h id t t' k) : k.objects.length = h.objects.length := by
  cases hs with
  | vacant ho => rfl
  | reclaimed ho hm => simp [Heap.reclaim]
  | held ho hm hr => simp [Heap.setObject]
  | moved ho hm hr hres => simp [Heap.relocate, Heap.setObject, hres.objects]

theorem object?_of_ne (hs : Settles h id t t' k) {j : Nat} (hj : j ≠ id) :
    k.object? j = h.object? j := by
  cases hs with
  | vacant ho => rfl
  | reclaimed ho hm => rw [object?_reclaim (object?_lt ho), if_neg hj]
  | @held o ho hm hr =>
    exact (object?_setObject (object?_lt ho) _ j).trans (if_neg hj)
  | @moved o a l ho hm hr hres =>
    have hid := object?_lt ho
    have hidl : id < l.objects.length := by simpa [hres.objects, Heap.setObject] using hid
    rw [object?_relocate hidl, if_neg hj, hres.object?, object?_setObject hid, if_neg hj]

theorem storage (hs : Settles h id t t' k) : k.storage = h.storage + h.dueAt id := by
  cases hs with
  | vacant ho => simp [dueAt, ho]
  | reclaimed ho hm =>
    show h.storage = _
    simp [dueAt, ho, hm]
  | held ho hm hr =>
    show h.storage + _ = _
    simp [dueAt, ho, hm]
  | moved ho hm hr hres =>
    have hst := hres.storage
    show _ = _
    simp only [Heap.relocate, Heap.setObject] at hst ⊢
    simp [hst, dueAt, ho, hm]

/-- Objects are given up or keep their footprints. -/
theorem object?_footprint (hs : Settles h id t t' k) {j : Nat} {p : Object}
    (hp : k.object? j = some p) : ∃ o, h.object? j = some o ∧ o.footprint = p.footprint := by
  by_cases hj : j = id
  · subst hj
    cases hs with
    | vacant ho =>
      rw [ho] at hp
      cases hp
    | reclaimed ho hm =>
      rw [object?_reclaim (object?_lt ho), if_pos rfl] at hp
      cases hp
    | @held o ho hm hr =>
      have hp := (object?_setObject (object?_lt ho) _ _).symm.trans hp
      rw [if_pos rfl] at hp
      cases hp
      exact ⟨o, ho, rfl⟩
    | @moved o a l ho hm hr hres =>
      have hidl : j < l.objects.length := by
        simpa [hres.objects, Heap.setObject] using object?_lt ho
      rw [object?_relocate hidl, if_pos rfl] at hp
      cases hp
      exact ⟨o, ho, rfl⟩
  · exact ⟨p, hs.object?_of_ne hj ▸ hp, rfl⟩

theorem worded (hs : Settles h id t t' k) (hw : h.Worded) : k.Worded := by
  intro j p hp
  obtain ⟨o, ho, hf⟩ := hs.object?_footprint hp
  exact hf ▸ hw j o ho

theorem modest (hs : Settles h id t t' k) (hm : h.Modest) : k.Modest where
  words := hs.worded hm.words
  small hp := by
    obtain ⟨o, ho, hf⟩ := hs.object?_footprint hp
    exact hf ▸ hm.small ho
  smallest hp := by
    obtain ⟨o, ho, -⟩ := hs.object?_footprint hp
    exact hs.settings.config ▸ hm.smallest ho

end Settles

theorem SettlesAll.worded (hs : SettlesAll h ids t t' k) (hw : h.Worded) : k.Worded := by
  induction hs with
  | nil h t => exact hw
  | cons head rest ih => exact ih (head.worded hw)

theorem Settles.extends (hs : Settles h id t t' k) : Extends h k := by
  cases hs with
  | vacant ho => exact .refl h
  | reclaimed ho hm => exact .of_eq rfl rfl rfl
  | held ho hm hr => exact .of_eq rfl rfl rfl
  | moved ho hm hr hres => exact ⟨hres.extends.blocks, hres.extends.owned_le⟩

/-- A run of decisions does not break off, if what it ends with is no more than can be had. -/
theorem settleAll_ok {ids : List Nat} (hn : ids.Nodup) (hm : h.Modest)
    (hs : h.storage + h.due ids < Word.limit)
    (ho : ((settleAll ids t).run h).state.owned < ample) :
    ∃ t' k ns, (settleAll ids t).run h = ⟨.ok t', k, ns⟩ ∧ SettlesAll h ids t t' k := by
  induction ids generalizing h t with
  | nil => exact ⟨t, h, [], rfl, .nil h t⟩
  | cons id ids ih =>
    obtain ⟨hid, hn⟩ := List.nodup_cons.1 hn
    rw [due_cons] at hs
    simp only [settleAll, Action.run_bind] at ho ⊢
    rcases settle_cases h id t (hm.words id) with
      ⟨u, k, ns, hrun, hset⟩ | ⟨o, e, k, ns, hobj, hmark, hrun, hframe, hfault⟩
    · rw [hrun] at ho ⊢
      have hrest : k.due ids = h.due ids := by
        apply due_congr
        intro j hj
        exact hset.object?_of_ne fun heq => hid (heq ▸ hj)
      obtain ⟨v, l, ms, hrun', hall⟩ := ih hn (hset.modest hm)
        (by rw [hset.storage, hrest]; omega) ho
      exact ⟨v, l, ns ++ ms, by simp only [hrun'], .cons hset hall⟩
    · -- the decision that breaks off would need more than can be had
      rw [hrun, hframe] at ho
      have hlt : h.owned < ample := ho
      have hat : h.dueAt id = o.footprint := by simp [dueAt, hobj, hmark]
      rcases hfault with hst | hcan
      · exact absurd (by omega) hst
      · exact absurd (hm.canCreate hobj hlt) hcan

/-! ## Runs of decisions that are not broken off -/

/-- A run of decisions that is not broken off makes them as it should. -/
theorem settlesAll_of_run (hw : h.Worded)
    (hrun : (settleAll ids t).run h = ⟨.ok t', k, ns⟩) : SettlesAll h ids t t' k := by
  induction ids generalizing h t ns with
  | nil =>
    cases hrun
    exact .nil _ _
  | cons id ids ih =>
    rw [settleAll] at hrun
    rcases settle_cases h id t (hw id) with
      ⟨u, m, ms, hhead, hset⟩ | ⟨o, e, m, ms, -, -, hhead, -⟩
    · rw [Action.run_bind_of_ok hhead] at hrun
      rcases hrest : (settleAll ids u).run m with ⟨answer, state, notices⟩
      rw [hrest] at hrun
      cases hrun
      exact .cons hset (ih (hset.worded hw) hrest)
    · rw [Action.run_bind_of_error hhead] at hrun
      cases hrun

/-- The same up to any point, and from there on. -/
theorem settlesAll_append_of_run (hw : h.Worded)
    (hrun : (settleAll (past ++ rest) t).run h = ⟨.ok t', k, ns⟩) :
    ∃ u m ms, (settleAll past t).run h = ⟨.ok u, m, ms⟩ ∧ SettlesAll h past t u m ∧
      SettlesAll m rest u t' k := by
  induction past generalizing h t ns with
  | nil => exact ⟨t, h, [], rfl, .nil h t, settlesAll_of_run hw hrun⟩
  | cons id past ih =>
    rw [List.cons_append, settleAll] at hrun
    rcases settle_cases h id t (hw id) with
      ⟨u, m, ms, hhead, hset⟩ | ⟨o, e, m, ms, -, -, hhead, -⟩
    · rw [Action.run_bind_of_ok hhead] at hrun
      rcases hrest : (settleAll (past ++ rest) u).run m with ⟨answer, state, notices⟩
      rw [hrest] at hrun
      cases hrun
      obtain ⟨v, l, ls, hpast, hbefore, hbehind⟩ := ih (hset.worded hw) hrest
      refine ⟨v, l, ms ++ ls, ?_, .cons hset hbefore, hbehind⟩
      rw [settleAll, Action.run_bind_of_ok hhead, hpast]
    · rw [Action.run_bind_of_error hhead] at hrun
      cases hrun

end PinnedHeap.Heap
