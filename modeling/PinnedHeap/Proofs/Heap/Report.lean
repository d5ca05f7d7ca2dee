import Mathlib.Data.Set.Card
import PinnedHeap.Proofs.Heap.Census
import PinnedHeap.Proofs.Heap.Inventory

/-!
# The report of a collection

A collection counts as it goes: its report is written in several places, and
in between the table that is counted changes. `Completes` is a collection that
has run to its end, with the report that it answers. Here the counts of the
report are led back to the heap before the collection (`SettlesAll.tally`),
and the storage to the heap after it.
-/

namespace PinnedHeap

namespace Object

theorem isLive_iff {o : Object} : o.isLive = true ↔ o.rooted = true ∨ 0 < o.retains := by
  rw [isLive, Bool.or_eq_true, isRetained, decide_eq_true_eq]

theorem isRetained_eq_not (o : Object) : o.isRetained = !decide (o.retains = 0) := by
  rw [isRetained, ← decide_not, decide_eq_decide]
  exact Nat.pos_iff_ne_zero

/-- One of three things becomes of an object. -/
theorem countP_verdicts (os : List Object) :
    (os.countP fun o => 0 < o.retains) + (os.countP fun o => o.rooted && o.retains = 0) +
      (os.countP fun o => !o.rooted && o.retains = 0) = os.length := by
  induction os with
  | nil => rfl
  | cons o os ih =>
    rw [List.countP_cons, List.countP_cons, List.countP_cons, List.length_cons]
    rcases Nat.eq_zero_or_pos o.retains with hz | hpos
    · cases hr : o.rooted <;> simp [hz] <;> omega
    · have hnz : o.retains ≠ 0 := by omega
      simp [hpos, hnz]
      omega

end Object

namespace Heap

variable {placement : Nat → Nat} {config : Config} {h k l : Heap} {c : Call} {r : Report}
  {id : Nat} {ids : List Nat} {t t' : Tally} {ns : List Notice}

/-! ## Collections that are completed -/

/-- A collection of `h` has settled every object and raised the target, and this is its
report. -/
inductive Completes (h : Heap) : Report → Heap → Prop where
  | intro {t : Tally} {l : Heap} {ns : List Notice}
      (hrun : (settleAll (List.range h.objects.length) {}).run h.prepare = ⟨.ok t, l, ns⟩)
      (hset : SettlesAll h.prepare (List.range h.objects.length) {} t l)
      (hcan : (l.retire h.unpinnedBuckets).CanRaise) :
      Completes h (h.reportOf t (l.retire h.unpinnedBuckets)) (l.retire h.unpinnedBuckets).raised

theorem Completes.swept (hc : Completes h r k) : ∃ l, Swept h l ∧ l.CanRaise ∧ k = l.raised := by
  cases hc with
  | intro hrun hset hcan => exact ⟨_, ⟨_, _, hset, rfl⟩, hcan, rfl⟩

theorem Completes.pinnedBuckets (hc : Completes h r k) :
    r.pinnedBuckets = h.pinnedBuckets.length := by
  cases hc
  rfl

theorem Completes.storage (hc : Completes h r k) :
    r.storageBefore = h.storage ∧ r.storageAfter = k.storage := by
  cases hc
  exact ⟨rfl, rfl⟩

theorem completes_collectNow (hw : h.Worded) (hans : (collectNow.run h).answer = .ok r) :
    Completes h r (collectNow.run h).state := by
  rcases hrun : (settleAll (List.range h.objects.length) {}).run h.prepare with ⟨x, l, ns⟩
  cases x with
  | error e =>
    rw [run_collectNow_of_error hrun] at hans
    cases hans
  | ok t =>
    by_cases hcan : (l.retire h.unpinnedBuckets).CanRaise
    · obtain ⟨ms, hcol⟩ := (run_collectNow hrun).1 hcan
      rw [hcol] at hans ⊢
      cases hans
      exact .intro hrun (settlesAll_of_run (hw.of_sites (sites_prepare h)) hrun) hcan
    · obtain ⟨ms, hcol⟩ := (run_collectNow hrun).2 hcan
      rw [hcol] at hans
      cases hans

theorem answer_of_collects (hc : h.Collects c) (hin : h.inhibitors = 0) :
    (c.run.run h).answer = (collectNow.run h).answer.map fun r => .report (some r) := by
  have hnot : ¬ 0 < h.inhibitors := by omega
  rw [run_of_collects hc, run_collect hnot]
  cases (collectNow.run h).answer <;> rfl

/-- A report is the answer to nothing but a collection that was completed. -/
theorem completes_of_report (hh : h.Settled) (hsup : h.Supplied)
    (hafter : (c.run.run h).state.Supplied)
    (hans : (c.run.run h).answer = .ok (.report (some r))) :
    h.inhibitors = 0 ∧ Completes h r (c.run.run h).state := by
  have hresp : Responds h c (c.run.run h).answer (c.run.run h).state := conforms hh hsup c hafter
  obtain ⟨hcol, hin⟩ : h.Collects c ∧ h.inhibitors = 0 := by
    rw [hans] at hresp
    generalize (c.run.run h).state = k at hresp
    cases hresp with
    | collected hc hin hk hcan => exact ⟨hc, hin⟩
  rw [answer_of_collects hcol hin] at hans
  rw [state_of_collects hcol hin]
  refine ⟨hin, completes_collectNow hh.sound.worded ?_⟩
  cases hnow : (collectNow.run h).answer with
  | error e =>
    rw [hnow] at hans
    cases hans
  | ok r' =>
    rw [hnow] at hans
    cases hans
    rfl

/-! ## Counting in the table -/

/-- How many of the objects with the ids meet a condition. -/
def countAt (h : Heap) (p : Object → Bool) (ids : List Nat) : Nat :=
  ids.countP fun id => (h.object? id).any p

theorem countAt_congr {p q : Object → Bool}
    (hobj : ∀ id ∈ ids, (k.object? id).any q = (h.object? id).any p) :
    k.countAt q ids = h.countAt p ids := by
  apply List.countP_congr
  intro id hid
  rw [hobj id hid]

theorem countAt_cons (h : Heap) (p : Object → Bool) (id : Nat) (ids : List Nat) :
    h.countAt p (id :: ids) = ((h.object? id).any p).toNat + h.countAt p ids := by
  rw [countAt, List.countP_cons, countAt, Nat.add_comm]
  cases (h.object? id).any p <;> rfl

theorem existing_eq_filterMap (h : Heap) :
    h.existing = (List.range h.objects.length).filterMap h.object? := by
  rw [existing, objects_eq_map, List.filterMap_map, List.length_map, List.length_range]
  rfl

theorem countAt_range (h : Heap) (p : Object → Bool) :
    h.countAt p (List.range h.objects.length) = h.existing.countP p := by
  rw [existing_eq_filterMap, List.countP_filterMap, countAt]
  apply List.countP_congr
  intro id _
  cases h.object? id <;> simp

/-- A sum over the positions of the table is one over the objects that exist. -/
theorem sum_range (h : Heap) (f : Object → Nat) :
    ((List.range h.objects.length).map fun id => (h.object? id).elim 0 f).sum =
      (h.existing.map f).sum := by
  rw [existing_eq_filterMap]
  generalize List.range h.objects.length = ids
  induction ids with
  | nil => rfl
  | cons id ids ih =>
    rw [List.map_cons, List.sum_cons, ih]
    cases ho : h.object? id with
    | none =>
      rw [List.filterMap_cons_none ho]
      exact Nat.zero_add _
    | some o =>
      rw [List.filterMap_cons_some ho, List.map_cons, List.sum_cons]
      rfl

/-! ## The tally -/

/-- What the tally has come to after the decisions about some ids. -/
structure Tallies (h : Heap) (ids : List Nat) (t t' : Tally) : Prop where
  held : t'.held = t.held + h.countAt (fun o => o.marked && o.isRetained) ids
  moved : t'.moved = t.moved + h.countAt (fun o => o.marked && !o.isRetained) ids
  reclaimed : t'.reclaimed = t.reclaimed + h.countAt (fun o => !o.marked) ids

theorem Settles.tally (hs : Settles h id t t' k) : Tallies h [id] t t' := by
  cases hs with
  | vacant ho => constructor <;> simp [countAt, ho]
  | reclaimed ho hm => constructor <;> simp [countAt, ho, hm]
  | held ho hm hr => constructor <;> simp [countAt, ho, hm, hr]
  | moved ho hm hr hres => constructor <;> simp [countAt, ho, hm, hr]

theorem SettlesAll.tally (hs : SettlesAll h ids t t' k) (hn : ids.Nodup) :
    Tallies h ids t t' := by
  induction hs with
  | nil h t => exact ⟨rfl, rfl, rfl⟩
  | @cons h k l id ids t u v head rest ih =>
    obtain ⟨hid, hn⟩ := List.nodup_cons.1 hn
    -- the objects still to be decided about are those of the heap before
    have hsame : ∀ p, k.countAt p ids = h.countAt p ids := by
      intro p
      apply countAt_congr
      intro j hj
      rw [head.object?_of_ne fun heq => hid (heq ▸ hj)]
    have h1 := head.tally
    have h2 := ih hn
    constructor
    · rw [h2.held, h1.held, hsame, countAt_cons, countAt_cons, Nat.add_assoc]
      rfl
    · rw [h2.moved, h1.moved, hsame, countAt_cons, countAt_cons, Nat.add_assoc]
      rfl
    · rw [h2.reclaimed, h1.reclaimed, hsame, countAt_cons, countAt_cons, Nat.add_assoc]
      rfl

/-- What is counted in the marked heap is counted in the heap before it was marked. -/
theorem Settled.countAt_prepare (hh : h.Settled) {p q : Object → Bool}
    (hpq : ∀ o : Object, o.marked = false → q o.markIfLive = p o) :
    h.prepare.countAt q (List.range h.objects.length) = h.existing.countP p := by
  rw [← countAt_range]
  apply countAt_congr
  intro id _
  rw [object?_prepare]
  cases ho : h.object? id with
  | none => rfl
  | some o => exact hpq o (hh.unmarked ho)

/-! ## Storage -/

/-- What is due for an object when a collection starts is its storage, if it is alive. -/
theorem Settled.dueAt_prepare (hh : h.Settled) (id : Nat) :
    h.prepare.dueAt id =
      (h.object? id).elim 0 fun o => if o.isLive then o.footprint else 0 := by
  rw [dueAt, object?_prepare]
  cases ho : h.object? id with
  | none => rfl
  | some o =>
    have hs := o.site_markIfLive
    simp only [Object.site, Prod.mk.injEq] at hs
    rw [Option.map_some, Option.elim_some, Option.elim_some,
      Object.marked_markIfLive (hh.unmarked ho), hs.2.2]

theorem Settled.liveStorage_eq (hh : h.Settled) :
    h.liveStorage = (h.existing.map fun o => if o.isLive then o.footprint else 0).sum := by
  rw [← sum_range, liveStorage, due]
  exact congrArg List.sum (List.map_congr_left fun id _ => hh.dueAt_prepare id)

/-- What is alive before a collection is what exists after it. -/
theorem Swept.liveStorage_eq (hk : Swept h k) (hh : h.Settled)
    (hsup : Buckets.Supplied k.allBuckets) :
    h.liveStorage = (k.existing.map Object.footprint).sum := by
  rw [← sum_range, hk.length, liveStorage, due]
  refine congrArg List.sum (List.map_congr_left fun id _ => ?_)
  rw [hh.dueAt_prepare]
  cases hk.outlives hh hsup id with
  | vacant before after => rw [before, after]; rfl
  | reclaimed before dead after =>
    rw [before, after, Option.elim_some, dead]
    rfl
  | kept before live after content place =>
    rw [before, after, Option.elim_some, live]
    rfl

/-! ## Pinned buckets -/

/-- The bucket holds a retained object. -/
def Keeps (h : Heap) (b : Bucket) : Prop :=
  ∃ id o, h.object? id = some o ∧ 0 < o.retains ∧ b.Holds o

theorem Settled.pins_iff_keeps (hh : h.Settled) (hsup : h.Supplied) {b : Bucket}
    (hb : b ∈ h.buckets) : h.pins b = true ↔ h.Keeps b := by
  constructor
  · intro hp
    obtain ⟨id, o, ho, hr, hin⟩ := (hh.pins_iff hsup hb).1 hp
    exact ⟨id, o, ho, of_decide_eq_true hr, hin.holds⟩
  · rintro ⟨id, o, ho, hpos, hle, hge⟩
    have hused := (hh.bucket_sound (List.mem_append_left _ hb)).used_le
    have hfoot := (hh.sound.object ho).footprint_pos
    refine List.any_eq_true.2 ⟨o, mem_existing ho, ?_⟩
    rw [Object.isRetained, decide_eq_true hpos, Bool.true_and, Bucket.contains_iff]
    omega

theorem Stocked.nodup_buckets {away : List Bucket} (hst : h.Stocked away) : h.buckets.Nodup := by
  have hnumbers := hst.numbered.nodup_iff.2 List.nodup_range
  have hall := hnumbers.of_map _
  exact (List.nodup_append.1 (List.nodup_append.1 hall).1).1

theorem Settled.length_pinnedBuckets (hh : h.Settled) (hsup : h.Supplied) (hst : h.Stocked []) :
    h.pinnedBuckets.length = {b | b ∈ h.buckets ∧ h.Keeps b}.ncard := by
  have hset : {b | b ∈ h.buckets ∧ h.Keeps b} = ↑h.pinnedBuckets.toFinset := by
    ext b
    rw [List.coe_toFinset, Set.mem_ofPred_eq, Set.mem_ofPred_eq, pinnedBuckets, List.mem_filter]
    exact and_congr_right fun hb => (hh.pins_iff_keeps hsup hb).symm
  have hnodup : h.pinnedBuckets.Nodup := hst.nodup_buckets.filter _
  rw [hset, Set.ncard_coe_finset, List.toFinset_card_of_nodup hnodup]

/-! ## What is reported -/

/-- What a collection that turned `h` into `k` has done to the objects, and that the report
tells of it. -/
structure Reported (h : Heap) (r : Report) (k : Heap) : Prop where
  survives : ∀ id o, h.object? id = some o → o.rooted = true ∨ 0 < o.retains →
    ∃ a, k.object? id = some { o with address := a } ∧ (a = o.address ↔ 0 < o.retains)
  reclaims : ∀ id o, h.object? id = some o → o.rooted = false → o.retains = 0 →
    k.object? id = none
  vacant : ∀ id, h.object? id = none → k.object? id = none
  held : r.held = h.existing.countP fun o => 0 < o.retains
  moved : r.moved = h.existing.countP fun o => o.rooted && o.retains = 0
  reclaimed : r.reclaimed = h.existing.countP fun o => !o.rooted && o.retains = 0
  total : r.held + r.moved + r.reclaimed = h.existing.length
  pinned : r.pinnedBuckets = {b | b ∈ h.buckets ∧ h.Keeps b}.ncard
  before : r.storageBefore = h.storage
  after : r.storageAfter = k.storage
  storage : k.storage = (k.existing.map Object.footprint).sum

theorem Completes.tally (hc : Completes h r k) (hh : h.Settled) :
    (r.held = h.existing.countP fun o => 0 < o.retains) ∧
      (r.moved = h.existing.countP fun o => o.rooted && o.retains = 0) ∧
      (r.reclaimed = h.existing.countP fun o => !o.rooted && o.retains = 0) := by
  cases hc with
  | @intro t l ns hrun hset hcan =>
    have ht := hset.tally List.nodup_range
    refine ⟨?_, ?_, ?_⟩
    · rw [← hh.countAt_prepare]
      · exact ht.held.trans (Nat.zero_add _)
      · intro o hm
        rw [Object.marked_markIfLive hm, o.isRetained_markIfLive, Object.isLive, Object.isRetained]
        cases o.rooted <;> simp
    · rw [← hh.countAt_prepare]
      · exact ht.moved.trans (Nat.zero_add _)
      · intro o hm
        rw [Object.marked_markIfLive hm, o.isRetained_markIfLive, Object.isLive,
          Object.isRetained_eq_not]
        cases o.rooted <;> simp
    · rw [← hh.countAt_prepare]
      · exact ht.reclaimed.trans (Nat.zero_add _)
      · intro o hm
        rw [Object.marked_markIfLive hm, Object.isLive, Object.isRetained_eq_not]
        cases o.rooted <;> simp

theorem Completes.reported (hc : Completes h r k) (hh : h.Settled) (hsup : h.Supplied)
    (hafter : k.Supplied) (hst : h.Stocked []) : Reported h r k := by
  obtain ⟨hheld, hmoved, hreclaimed⟩ := hc.tally hh
  cases hc with
  | @intro t l ns hrun hset hcan =>
    have hk : Swept h (l.retire h.unpinnedBuckets) := ⟨t, l, hset, rfl⟩
    have hafter : (l.retire h.unpinnedBuckets).Supplied := ⟨hafter.blocks, hafter.owned_lt⟩
    have hout := hk.outlives hh hafter.blocks
    constructor
    · intro id o ho hlive
      cases hout id with
      | vacant before after =>
        rw [ho] at before
        cases before
      | reclaimed before dead after =>
        rw [ho] at before
        cases before
        rw [Object.isLive_iff.2 hlive] at dead
        cases dead
      | kept before live after content place =>
        rw [ho] at before
        cases before
        exact ⟨_, after, place.trans decide_eq_true_iff⟩
    · intro id o ho hroot hzero
      cases hout id with
      | vacant before after => exact after
      | reclaimed before dead after => exact after
      | kept before live after content place =>
        rw [ho] at before
        cases before
        rcases Object.isLive_iff.1 live with hr | hpos
        · rw [hroot] at hr
          cases hr
        · omega
    · intro id ho
      cases hout id with
      | vacant before after => exact after
      | reclaimed before dead after => exact after
      | kept before live after content place =>
        rw [ho] at before
        cases before
    · exact hheld
    · exact hmoved
    · exact hreclaimed
    · rw [hheld, hmoved, hreclaimed]
      exact Object.countP_verdicts h.existing
    · exact hh.length_pinnedBuckets hsup hst
    · rfl
    · rfl
    · exact hk.storage.trans (hk.liveStorage_eq hh hafter.blocks)

/-- A collection is completed unless the target that it will want is too large a number. -/
theorem exists_report_iff (hh : h.Settled) (hsup : h.Supplied) (hc : h.Collects c)
    (hin : h.inhibitors = 0) (hafter : (c.run.run h).state.Supplied) :
    (∃ r, (c.run.run h).answer = .ok (.report (some r))) ↔
      h.config.targetFactor *
        (h.existing.map fun o => if o.isLive then o.footprint else 0).sum < Word.limit := by
  rw [state_of_collects hc hin] at hafter
  obtain ⟨k, hk, hsupk, hcase⟩ := collectNow_cases hh hsup hafter
  have hraise : k.CanRaise ↔ h.config.targetFactor *
      (h.existing.map fun o => if o.isLive then o.footprint else 0).sum < Word.limit := by
    rw [← hh.liveStorage_eq, ← hk.storage, CanRaise, hk.settings.config]
  rw [← hraise, answer_of_collects hc hin]
  rcases hcase with ⟨hcan, r, ns, hrun⟩ | ⟨hcan, ns, hrun⟩
  · exact iff_of_true ⟨r, by rw [hrun]; rfl⟩ hcan
  · refine iff_of_false ?_ hcan
    rintro ⟨r, hr⟩
    rw [hrun] at hr
    cases hr

/-- A collection that is completed reports what it does and does what it reports, whatever
was asked of the heap before and whichever calls have broken off. If collections are not put
off, one is completed unless the target that it will want is too large a number. -/
theorem Reached.collection_reported (hr : Reached placement config h) (c : Call)
    (hafter : (c.run.run h).state.Supplied) :
    (h.inhibitors = 0 → h.Collects c →
      ((∃ r, (c.run.run h).answer = .ok (.report (some r))) ↔
        h.config.targetFactor *
          (h.existing.map fun o => if o.isLive then o.footprint else 0).sum < Word.limit)) ∧
    ∀ r, (c.run.run h).answer = .ok (.report (some r)) →
      h.inhibitors = 0 ∧ Reported h r (c.run.run h).state := by
  have hh := hr.settled
  have hsup := hr.supplied
  refine ⟨fun hin hc => exists_report_iff hh hsup hc hin hafter, ?_⟩
  intro r hans
  obtain ⟨hin, hcomp⟩ := completes_of_report hh hsup hafter hans
  exact ⟨hin, hcomp.reported hh hsup hafter hr.stocked⟩

/-- A call has been answered if there is an answer. -/
theorem answer_of_toOption {x : Except Fault Answer} {y : Answer} (h : x.toOption = some y) :
    x = .ok y := by
  cases x with
  | error e => cases h
  | ok z => exact congrArg Except.ok (Option.some.inj h)

/-- Two retained objects share a bucket, of which one is not rooted; one that is dead and one
that is only rooted share another. A request that cannot be met has been counted. -/
theorem mixed_collection_reported :
    ∃ h, Reached (spaced 0x10000 0x10000) ⟨64, 64, 2, false⟩ h ∧ h.inhibitors = 0 ∧
      (Call.collect.run.run h).state.Supplied ∧
      (Call.collect.run.run h).answer =
        .ok (.report (some ⟨1, 1, 2, 1, 0x1000000000000000 + 528, 464⟩)) ∧
      Reported h ⟨1, 1, 2, 1, 0x1000000000000000 + 528, 464⟩ (Call.collect.run.run h).state := by
  have hrun : ((create (spaced 0x10000 0x10000) ⟨64, 64, 2, false⟩).calls?
      [.allocate 8, .allocate 8, .allocate 64, .allocate 448, .retain 0x10000, .retain 0x10008,
        .retain 0x10008, .unroot 0, .unroot 2, .allocate 0x1000000000000000]).map
      (fun h => (h.inhibitors, decide (Call.collect.run.run h).state.Supplied,
        (Call.collect.run.run h).answer.toOption)) =
      some (0, true, some (.report (some ⟨1, 1, 2, 1, 0x1000000000000000 + 528, 464⟩))) := by
    decide +kernel
  obtain ⟨h, hcalls, heq⟩ := Option.map_eq_some_iff.1 hrun
  simp only [Prod.mk.injEq, decide_eq_true_eq] at heq
  obtain ⟨hin, hsup, hanswer⟩ := heq
  have hr := Reached.create.of_calls? hcalls
  obtain ⟨-, hreports⟩ := hr.collection_reported .collect hsup
  have hans := answer_of_toOption hanswer
  exact ⟨h, hr, hin, hsup, hans, (hreports _ hans).2⟩

end Heap

end PinnedHeap
