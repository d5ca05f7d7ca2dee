import PinnedHeap.Proofs.Heap.Report

/-!
# Collecting again

A collection leaves nothing for the next one to find: what it has left is
alive, so the next one gives nothing up and moves and holds the same objects.
The two may find the buckets in a different order and filled differently. That
the same buckets are pinned both times is because those that a collection
keeps stay at the head of the list of buckets in use, and what it adds behind
them houses nothing that is retained.
-/

namespace PinnedHeap.Heap

variable {placement : Nat → Nat} {config : Config} {h k l : Heap} {c : Call} {r r' : Report}
  {id bytes a : Nat} {o : Object} {ids : List Nat} {t t' : Tally}

/-! ## The buckets that are kept -/

/-- The buckets in use keep their order, and others are added behind them. -/
def Prolongs (h k : Heap) : Prop := h.buckets.map Bucket.reset <+: k.buckets.map Bucket.reset

theorem Prolongs.trans (hk : Prolongs h k) (kl : Prolongs k l) : Prolongs h l :=
  List.IsPrefix.trans hk kl

theorem Prolongs.of_eq (hb : k.buckets = h.buckets) : Prolongs h k := by
  rw [Prolongs, hb]

theorem Reserves.prolongs (hr : Reserves h bytes a k) : Prolongs h k := by
  cases hr with
  | @inUse before behind b hb hfit =>
    rw [Prolongs, hb]
    simp
  | recycled hnone hb hfit =>
    rw [Prolongs, List.map_append]
    exact List.prefix_append _ _
  | created hnone hspare hcan =>
    rw [Prolongs, List.map_append]
    exact List.prefix_append _ _

theorem Settles.prolongs (hs : Settles h id t t' k) : Prolongs h k := by
  cases hs with
  | vacant ho => exact .of_eq rfl
  | reclaimed ho hm => exact .of_eq rfl
  | held ho hm hr => exact .of_eq rfl
  | moved ho hm hr hres => exact hres.prolongs

theorem SettlesAll.prolongs (hs : SettlesAll h ids t t' k) : Prolongs h k := by
  induction hs with
  | nil h t => exact .of_eq rfl
  | cons head rest ih => exact head.prolongs.trans ih

/-- The buckets that a collection keeps head the list of those in use when it is over. -/
theorem Swept.pinned_prefix (hk : Swept h k) :
    h.pinnedBuckets.map Bucket.reset <+: k.buckets.map Bucket.reset := by
  obtain ⟨t, l, hset, rfl⟩ := hk
  exact hset.prolongs

/-! ## What is left is alive -/

/-- What a collection has left is alive. -/
theorem Swept.isLive (hk : Swept h k) (hh : h.Settled) (hsup : Buckets.Supplied k.allBuckets)
    (ho : k.object? id = some o) : o.isLive = true := by
  cases hk.outlives hh hsup id with
  | vacant before after =>
    rw [after] at ho
    cases ho
  | reclaimed before dead after =>
    rw [after] at ho
    cases ho
  | kept before live after content place =>
    rw [after] at ho
    cases ho
    exact live

/-- A collection leaves as many objects of a kind as there were, if only what is alive is of that
kind and wherever it lies. -/
theorem Swept.countP_existing (hk : Swept h k) (hh : h.Settled)
    (hsup : Buckets.Supplied k.allBuckets) {p : Object → Bool}
    (hlive : ∀ o, o.isLive = false → p o = false)
    (hplace : ∀ (o : Object) a, p { o with address := a } = p o) :
    k.existing.countP p = h.existing.countP p := by
  rw [← countAt_range, ← countAt_range, hk.length]
  apply countAt_congr
  intro id _
  cases hk.outlives hh hsup id with
  | vacant before after => rw [before, after]
  | reclaimed before dead after =>
    rw [before, after, Option.any_some, hlive _ dead]
    rfl
  | kept before live after content place =>
    rw [before, after, Option.any_some, Option.any_some, hplace]

/-- The storage of what a collection has left is what counts as in use. -/
theorem Swept.live_storage (hk : Swept h k) (hh : h.Settled)
    (hsup : Buckets.Supplied k.allBuckets) :
    (k.existing.map fun o => if o.isLive then o.footprint else 0).sum = k.storage := by
  rw [hk.storage, hk.liveStorage_eq hh hsup]
  refine congrArg List.sum (List.map_congr_left fun o hmem => ?_)
  obtain ⟨id, ho⟩ := exists_of_mem_existing hmem
  rw [if_pos (hk.isLive hh hsup ho)]

/-! ## What is pinned is the same -/

theorem pins_iff_exists {b : Bucket} :
    h.pins b = true ↔
      ∃ id o, h.object? id = some o ∧ o.isRetained = true ∧ b.contains o.address = true := by
  rw [pins, List.any_eq_true]
  constructor
  · rintro ⟨o, hmem, hboth⟩
    obtain ⟨hr, hin⟩ := Bool.and_eq_true_iff.1 hboth
    obtain ⟨id, ho⟩ := exists_of_mem_existing hmem
    exact ⟨id, o, ho, hr, hin⟩
  · rintro ⟨id, o, ho, hr, hin⟩
    exact ⟨o, mem_existing ho, Bool.and_eq_true_iff.2 ⟨hr, hin⟩⟩

/-- A retained object is not changed by a collection. -/
theorem Swept.retained_iff (hk : Swept h k) (hh : h.Settled)
    (hsup : Buckets.Supplied k.allBuckets) (hr : o.isRetained = true) :
    k.object? id = some o ↔ h.object? id = some o := by
  cases hk.outlives hh hsup id with
  | vacant before after => rw [before, after]
  | @reclaimed p before dead after =>
    rw [before, after]
    refine iff_of_false nofun ?_
    intro hp
    cases hp
    rw [Object.isLive, hr, Bool.or_true] at dead
    cases dead
  | @kept p b before live after content place =>
    rw [before, after]
    constructor
    · intro hp
      cases hp
      have hb : b = p.address := place.2 hr
      rw [hb]
    · intro hp
      cases hp
      rw [place.2 hr]

/-- The next collection would pin the same places. -/
theorem Swept.pins_eq (hk : Swept h k) (hh : h.Settled) (hsup : Buckets.Supplied k.allBuckets)
    (b : Bucket) : k.pins b = h.pins b := by
  rw [Bool.eq_iff_iff, pins_iff_exists, pins_iff_exists]
  constructor
  · rintro ⟨id, o, ho, hr, hin⟩
    exact ⟨id, o, (hk.retained_iff hh hsup hr).1 ho, hr, hin⟩
  · rintro ⟨id, o, ho, hr, hin⟩
    exact ⟨id, o, (hk.retained_iff hh hsup hr).2 ho, hr, hin⟩

/-- A bucket that shares no byte with those that were pinned does not get pinned. -/
theorem Swept.pins_eq_false (hk : Swept h k) (hh : h.Settled)
    (hsup : Buckets.Supplied k.allBuckets) {b : Bucket}
    (hapart : ∀ c ∈ h.pinnedBuckets, c.Apart b) : k.pins b = false := by
  rw [← Bool.not_eq_true, hk.pins_eq hh hsup, pins_iff_exists]
  rintro ⟨id, o, ho, hr, hin⟩
  obtain ⟨c, hc, hhouse⟩ := hh.sound.housed_pinned ho hr
  have hne := hapart c hc
  have hused := (hh.bucket_sound (List.mem_append_left _ (List.mem_of_mem_filter hc))).used_le
  have hpos := (hh.sound.object ho).footprint_pos
  have hstart := hhouse.start_le
  have hstop := hhouse.stop_le
  rw [Bucket.contains_iff] at hin
  simp only [Bucket.Apart, Bucket.stop] at hne
  omega

/-- The next collection would pin as many buckets. -/
theorem Swept.length_pinnedBuckets (hk : Swept h k) (hh : h.Settled)
    (hsup : Buckets.Supplied k.allBuckets) :
    k.pinnedBuckets.length = h.pinnedBuckets.length := by
  obtain ⟨added, hadded⟩ := hk.pinned_prefix
  have hapart : (k.buckets.map Bucket.reset).Pairwise Bucket.Apart :=
    (Buckets.supplied_reset.2 (hsup.subperm (List.sublist_append_left _ _).subperm)).apart
  rw [← hadded] at hapart
  obtain ⟨-, -, hapart⟩ := List.pairwise_append.1 hapart
  have hold : (h.pinnedBuckets.map Bucket.reset).countP k.pins = h.pinnedBuckets.length := by
    rw [← List.length_map Bucket.reset, List.countP_eq_length]
    intro c hc
    obtain ⟨b, hb, rfl⟩ := List.mem_map.1 hc
    rw [hk.pins_eq hh hsup]
    exact (List.mem_filter.1 hb).2
  have hnew : added.countP k.pins = 0 := by
    rw [List.countP_eq_zero]
    intro b hb
    rw [hk.pins_eq_false hh hsup fun c hc => hapart c.reset (List.mem_map_of_mem hc) b hb]
    exact Bool.false_ne_true
  calc k.pinnedBuckets.length
      = (k.buckets.map Bucket.reset).countP k.pins := by
        rw [List.countP_map, pinnedBuckets, ← List.countP_eq_length_filter]
        rfl
    _ = h.pinnedBuckets.length := by rw [← hadded, List.countP_append, hold, hnew, Nat.add_zero]

/-! ## Two collections -/

/-- A collection that reports `r` has left `k`, and the next one, which reports `r'`, has left
`l`: it has given nothing up and has done otherwise what the first one did, and all that has
changed is where the objects lie. -/
structure Repeats (r r' : Report) (k l : Heap) : Prop where
  reclaimed : r'.reclaimed = 0
  moved : r'.moved = r.moved
  held : r'.held = r.held
  pinned : r'.pinnedBuckets = r.pinnedBuckets
  before : r'.storageBefore = r.storageAfter
  after : r'.storageAfter = r.storageAfter
  objects : ∀ id o, k.object? id = some o → ∃ a, l.object? id = some { o with address := a }
  vacant : ∀ id, k.object? id = none → l.object? id = none
  content : ∀ id, l.content? id = k.content? id
  target : l.target = k.target
  wantsCollection : l.wantsCollection = k.wantsCollection

/-- If nothing is dead, a collection gives nothing up. -/
theorem Outlives.of_live (hk : Outlives h k id)
    (hlive : ∀ o, h.object? id = some o → o.isLive = true) :
    (h.object? id = none ∧ k.object? id = none) ∨
      ∃ o a, h.object? id = some o ∧ k.object? id = some { o with address := a } ∧
        k.content? id = h.content? id := by
  cases hk with
  | vacant before after => exact .inl ⟨before, after⟩
  | reclaimed before dead after =>
    rw [hlive _ before] at dead
    cases dead
  | kept before live after content place => exact .inr ⟨_, _, before, after, content⟩

/-- The next collection gives nothing up, and moves and holds as many objects. -/
theorem Completes.tally_again (hc : Completes h r k) (hc' : Completes k r' l) (hh : h.Settled)
    (hk : k.Settled) (hsup : Buckets.Supplied k.allBuckets) :
    r'.reclaimed = 0 ∧ r'.moved = r.moved ∧ r'.held = r.held := by
  obtain ⟨hheld, hmoved, -⟩ := hc.tally hh
  obtain ⟨hheld', hmoved', hreclaimed'⟩ := hc'.tally hk
  obtain ⟨m, hm, -, rfl⟩ := hc.swept
  refine ⟨?_, ?_, ?_⟩
  · rw [hreclaimed', List.countP_eq_zero]
    intro o hmem
    obtain ⟨id, ho⟩ := exists_of_mem_existing hmem
    rcases Object.isLive_iff.1 (hm.isLive hh hsup ho) with hr | hpos
    · simp [hr]
    · simp [Nat.pos_iff_ne_zero.1 hpos]
  · rw [hmoved', hmoved]
    refine hm.countP_existing hh hsup ?_ fun o a => rfl
    intro o hdead
    rw [(Bool.or_eq_false_iff.1 hdead).1, Bool.false_and]
  · rw [hheld', hheld]
    refine hm.countP_existing hh hsup ?_ fun o a => rfl
    intro o hdead
    exact (Bool.or_eq_false_iff.1 hdead).2

theorem Completes.repeats (hc : Completes h r k) (hc' : Completes k r' l) (hh : h.Settled)
    (hk : k.Settled) (hsup : k.Supplied) (hafter : l.Supplied) : Repeats r r' k l := by
  obtain ⟨hreclaimed, hmoved, hheld⟩ := hc.tally_again hc' hh hk hsup.blocks
  have hpinned := hc.pinnedBuckets
  have hpinned' := hc'.pinnedBuckets
  obtain ⟨-, hafterwards⟩ := hc.storage
  obtain ⟨hbefore', hafterwards'⟩ := hc'.storage
  obtain ⟨m, hm, -, rfl⟩ := hc.swept
  obtain ⟨n, hn, -, rfl⟩ := hc'.swept
  have hstorage : n.storage = m.storage := by
    rw [hn.storage, hk.liveStorage_eq]
    exact hm.live_storage hh hsup.blocks
  have hout := fun id => (hn.outlives hk hafter.blocks id).of_live fun o ho =>
    hm.isLive hh hsup.blocks ho
  constructor
  · exact hreclaimed
  · exact hmoved
  · exact hheld
  · rw [hpinned', hpinned]
    exact hm.length_pinnedBuckets hh hsup.blocks
  · rw [hbefore', hafterwards]
  · rw [hafterwards', hafterwards]
    exact hstorage
  · intro id o ho
    rcases hout id with ⟨hnone, -⟩ | ⟨p, a, hp, hafter, -⟩
    · rw [ho] at hnone
      cases hnone
    · rw [ho] at hp
      cases hp
      exact ⟨a, hafter⟩
  · intro id ho
    rcases hout id with ⟨-, hnone⟩ | ⟨p, a, hp, -, -⟩
    · exact hnone
    · rw [ho] at hp
      cases hp
  · intro id
    rcases hout id with ⟨hnone, hnone'⟩ | ⟨p, a, -, -, hcontent⟩
    · show n.content? id = m.raised.content? id
      rw [content?, content?, hnone, hnone']
      rfl
    · exact hcontent
  · -- the second collection wants the target that the first one has set
    show max n.target (n.config.targetFactor * n.storage) = m.raised.target
    rw [hn.settings.target, hn.settings.config, hstorage]
    exact Nat.max_eq_left (Nat.le_max_right _ _)
  · show n.wantsCollection = m.wantsCollection
    rw [hn.wantsCollection, hm.wantsCollection]

/-- A collection that has been completed can be completed again. -/
theorem Completes.again (hc : Completes h r k) (hh : h.Settled) (hk : k.Settled)
    (hin : h.inhibitors = 0) (hsup : k.Supplied)
    (hafter : (Call.collect.run.run k).state.Supplied) :
    ∃ r', (Call.collect.run.run k).answer = .ok (.report (some r')) := by
  obtain ⟨m, hm, hcan, rfl⟩ := hc.swept
  refine (exists_report_iff (c := .collect) hk hsup trivial ?_ hafter).2 ?_
  · exact hm.settings.inhibitors.trans hin
  · rw [show m.raised.existing = m.existing from rfl, hm.live_storage hh hsup.blocks]
    exact hcan

/-- When a collection has been completed, the next one is completed too and finds nothing new,
whatever was asked of the heap before and whichever calls have broken off. -/
theorem Reached.second_collection_finds_nothing (hr : Reached placement config h)
    (hafter : (c.run.run h).state.Supplied)
    (hans : (c.run.run h).answer = .ok (.report (some r)))
    (hagain : (Call.collect.run.run (c.run.run h).state).state.Supplied) :
    ∃ r', (Call.collect.run.run (c.run.run h).state).answer = .ok (.report (some r')) ∧
      Repeats r r' (c.run.run h).state (Call.collect.run.run (c.run.run h).state).state := by
  have hh := hr.settled
  have hk := (hr.call c hafter).settled
  obtain ⟨hin, hc⟩ := completes_of_report hh hr.supplied hafter hans
  obtain ⟨r', hans'⟩ := hc.again hh hk hin hafter hagain
  obtain ⟨-, hc'⟩ := completes_of_report hk hafter hagain hans'
  exact ⟨r', hans', hc.repeats hc' hh hk hafter hagain⟩

/-- Two retained objects share a bucket, and an object that is only rooted is moved by both
collections, to a new bucket and back to the one that it came from. -/
theorem mixed_collection_repeats :
    ∃ h k l r', Reached (spaced 0x10000 0x10000) ⟨64, 64, 2, false⟩ h ∧
      k = (Call.collect.run.run h).state ∧ l = (Call.collect.run.run k).state ∧
      (Call.collect.run.run h).answer =
        .ok (.report (some ⟨1, 1, 2, 1, 0x1000000000000000 + 528, 464⟩)) ∧
      (Call.collect.run.run k).answer = .ok (.report (some r')) ∧
      [h, k, l].map (fun h => (h.object? 3).map Object.address) =
        [some 0x20040, some 0x30000, some 0x20000] ∧
      Repeats ⟨1, 1, 2, 1, 0x1000000000000000 + 528, 464⟩ r' k l := by
  have hrun : ((create (spaced 0x10000 0x10000) ⟨64, 64, 2, false⟩).calls?
      [.allocate 8, .allocate 8, .allocate 64, .allocate 448, .retain 0x10000, .retain 0x10008,
        .retain 0x10008, .unroot 0, .unroot 2, .allocate 0x1000000000000000]).map
      (fun h =>
        (decide (Call.collect.run.run h).state.Supplied, (Call.collect.run.run h).answer.toOption,
          decide (Call.collect.run.run (Call.collect.run.run h).state).state.Supplied,
          [h, (Call.collect.run.run h).state,
            (Call.collect.run.run (Call.collect.run.run h).state).state].map
              fun h => (h.object? 3).map Object.address)) =
      some (true, some (.report (some ⟨1, 1, 2, 1, 0x1000000000000000 + 528, 464⟩)), true,
        [some 0x20040, some 0x30000, some 0x20000]) := by
    decide +kernel
  obtain ⟨h, hcalls, heq⟩ := Option.map_eq_some_iff.1 hrun
  simp only [Prod.mk.injEq, decide_eq_true_eq] at heq
  obtain ⟨hsup, hanswer, hagain, haddresses⟩ := heq
  have hr := Reached.create.of_calls? hcalls
  have hans := answer_of_toOption hanswer
  obtain ⟨r', hans', hrepeats⟩ := hr.second_collection_finds_nothing hsup hans hagain
  exact ⟨h, _, _, r', hr, rfl, rfl, hans, hans', haddresses, hrepeats⟩

end PinnedHeap.Heap
