import PinnedHeap.Proofs.Heap.Fate

/-!
# Collections

A collection sets the buckets apart that hold no retained object, settles
every object, and takes the buckets that were set apart as spare ones: nothing
lives in them by then. `Swept` relates the heap before to the heap when that
is done; what remains is to raise the target, and that is the one place where
a collection can break off.
-/

namespace PinnedHeap

namespace Object

@[simp] theorem site_markIfLive (o : Object) : o.markIfLive.site = o.site := by
  unfold markIfLive
  split <;> rfl

@[simp] theorem isRetained_markIfLive (o : Object) : o.markIfLive.isRetained = o.isRetained := by
  unfold markIfLive
  split <;> rfl

theorem marked_markIfLive {o : Object} (hm : o.marked = false) :
    o.markIfLive.marked = o.isLive := by
  unfold markIfLive
  split
  · next hl => exact hl.symm
  · next hl =>
    rw [hm]
    simpa using hl

/-- Marking and unmarking leave nothing behind. -/
theorem unmark_markIfLive {o : Object} (hm : o.marked = false) (a : Nat) :
    { o.markIfLive with address := a, marked := false } = { o with address := a } := by
  unfold markIfLive
  split
  · cases o
    simp_all
  · cases o
    simp_all

end Object

namespace Heap

variable {h k : Heap} {id : Nat}

/-! ## The start of a collection -/

theorem object?_prepare (h : Heap) (id : Nat) :
    h.prepare.object? id = (h.object? id).map Object.markIfLive := by
  simp only [object?, prepare, mark, List.getElem?_map]
  cases h.objects[id]? with
  | none => rfl
  | some x => rfl

theorem sites_prepare (h : Heap) : Sites h h.prepare where
  index := rfl
  vacant := rfl
  length := by simp [prepare, mark]
  site id := by
    rw [object?_prepare]
    cases h.object? id with
    | none => rfl
    | some o => simp

theorem mem_existing {o : Object} (ho : h.object? id = some o) : o ∈ h.existing := by
  unfold object? at ho
  rw [Option.join_eq_some_iff] at ho
  exact List.mem_filterMap.2 ⟨some o, List.mem_of_getElem? ho, rfl⟩

theorem exists_of_mem_existing {o : Object} (ho : o ∈ h.existing) :
    ∃ id, h.object? id = some o := by
  obtain ⟨x, hx, rfl⟩ := List.mem_filterMap.1 ho
  obtain ⟨id, hid⟩ := List.mem_iff_getElem?.1 hx
  exact ⟨id, by rw [object?, hid]; rfl⟩

theorem pins_of_houses {o : Object} {b : Bucket} (ho : h.object? id = some o)
    (hr : o.isRetained = true) (hin : b.Houses o.address o.footprint) (hpos : 0 < o.footprint)
    (hb : b.Sound) : h.pins b = true := by
  have h1 := hin.start_le
  have h2 := hin.stop_le
  have h3 := hb.used_le
  refine List.any_eq_true.2 ⟨o, mem_existing ho, ?_⟩
  rw [hr, Bool.true_and]
  exact Bucket.contains_iff.2 ⟨h1, by omega⟩

theorem mem_pinnedBuckets_or {b : Bucket} (hb : b ∈ h.buckets) :
    b ∈ h.pinnedBuckets ∨ b ∈ h.unpinnedBuckets := by
  cases hp : h.pins b with
  | true => exact .inl (List.mem_filter.2 ⟨hb, hp⟩)
  | false => exact .inr (List.mem_filter.2 ⟨hb, by rw [hp]; rfl⟩)

theorem perm_prepare (h : Heap) :
    (h.prepare.allBuckets ++ h.unpinnedBuckets).Perm (h.allBuckets ++ []) := by
  have hsplit : (h.pinnedBuckets ++ h.unpinnedBuckets).Perm h.buckets :=
    List.filter_append_perm h.pins h.buckets
  rw [List.append_nil]
  show (h.pinnedBuckets ++ h.spare ++ h.unpinnedBuckets).Perm (h.buckets ++ h.spare)
  rw [List.append_assoc]
  refine (List.Perm.append_left _ List.perm_append_comm).trans ?_
  rw [← List.append_assoc]
  exact hsplit.append_right h.spare

theorem Sound.prepare (hh : h.Sound []) : h.prepare.Sound h.unpinnedBuckets := by
  refine hh.transfer (sites_prepare h) rfl rfl ((perm_prepare h).map _) ?_ ?_
  · intro b hb
    exact hh.bucket b ((perm_prepare h).mem_iff.1 hb)
  · intro id p hp
    obtain ⟨b, hb, hin⟩ := (sites_prepare h).housed hh hp
    rw [List.append_nil] at hb
    refine ⟨b, ?_, hin⟩
    exact List.mem_append.2 (mem_pinnedBuckets_or hb)

/-- What is retained lies in a bucket that is not set apart. -/
theorem Sound.housed_pinned (hh : h.Sound []) {o : Object} (ho : h.object? id = some o)
    (hr : o.isRetained = true) :
    ∃ b ∈ h.prepare.buckets, b.Houses o.address o.footprint := by
  obtain ⟨b, hb, hin⟩ := hh.housed ho
  have hsound := hh.bucket b (mem_allBuckets_append hb)
  rw [List.append_nil] at hb
  refine ⟨b, List.mem_filter.2 ⟨hb, ?_⟩, hin⟩
  exact pins_of_houses ho hr hin (hh.object ho).footprint_pos hsound

/-! ## The heap when all objects are settled -/

/-- Every object of `h` is settled, and the buckets that were set apart are spare. -/
def Swept (h k : Heap) : Prop :=
  ∃ t l, SettlesAll h.prepare (List.range h.objects.length) {} t l ∧
    k = l.retire h.unpinnedBuckets

/-- Bytes of storage of everything that is alive. -/
def liveStorage (h : Heap) : Nat := h.prepare.due (List.range h.objects.length)

theorem reset_retire (h : Heap) (bs : List Bucket) :
    ((h.retire bs).allBuckets.map Bucket.reset) = (h.allBuckets ++ bs).map Bucket.reset := by
  simp [allBuckets, retire, Function.comp_def, Bucket.reset]

theorem supplied_retire {h : Heap} {bs : List Bucket}
    (hs : Buckets.Supplied (h.retire bs).allBuckets) : Buckets.Supplied (h.allBuckets ++ bs) := by
  rw [← Buckets.supplied_reset, ← reset_retire, Buckets.supplied_reset]
  exact hs

/-- What becomes of the object with an id in a whole collection. -/
inductive Outlives (h k : Heap) (id : Nat) : Prop where
  | vacant (before : h.object? id = none) (after : k.object? id = none)
  | reclaimed {o : Object} (before : h.object? id = some o) (dead : o.isLive = false)
      (after : k.object? id = none)
  | kept {o : Object} {a : Nat} (before : h.object? id = some o) (live : o.isLive = true)
      (after : k.object? id = some { o with address := a })
      (content : k.content? id = h.content? id) (place : a = o.address ↔ o.isRetained = true)

namespace Swept

theorem settings (hk : Swept h k) : SameSettings h k := by
  obtain ⟨t, l, hset, rfl⟩ := hk
  exact ⟨hset.settings.config, hset.settings.target, hset.settings.inhibitors,
    hset.settings.collections⟩

theorem storage (hk : Swept h k) : k.storage = h.liveStorage := by
  obtain ⟨t, l, hset, rfl⟩ := hk
  show l.storage = _
  rw [hset.storage List.nodup_range, liveStorage]
  exact Nat.zero_add _

theorem length (hk : Swept h k) : k.objects.length = h.objects.length := by
  obtain ⟨t, l, hset, rfl⟩ := hk
  exact hset.length.trans (sites_prepare h).length

theorem wantsCollection (hk : Swept h k) : k.wantsCollection = false := by
  obtain ⟨t, l, hset, rfl⟩ := hk
  rfl

end Swept

theorem content?_prepare (h : Heap) (id : Nat) : h.prepare.content? id = h.content? id := by
  rw [content?, content?, object?_prepare]
  cases h.object? id with
  | none => rfl
  | some o =>
    have hs := o.site_markIfLive
    simp only [Object.site, Prod.mk.injEq] at hs
    rw [Option.map_some, Option.map_some, Option.map_some, hs.1, hs.2.1]
    rfl

/-- Every place in the table meets its fate. -/
theorem Swept.fate (hk : Swept h k) (hh : h.Sound []) (hsup : Buckets.Supplied k.allBuckets)
    (id : Nat) : Fate h.prepare k id := by
  obtain ⟨t, l, hset, rfl⟩ := hk
  have hsound := hset.sound hh.prepare (supplied_retire hsup)
  by_cases hid : id < h.objects.length
  · exact (hset.fate List.nodup_range hh.prepare (supplied_retire hsup)
      (List.mem_range.2 hid)).before_untouched (.of_memory rfl rfl) fun a n hin => hin
  · refine .vacant ?_ ?_
    · rw [object?, List.getElem?_eq_none (by simp [Heap.prepare, mark]; omega)]
      rfl
    · have hlen : l.objects.length = h.objects.length :=
        hset.length.trans (sites_prepare h).length
      show l.object? id = none
      rw [object?, List.getElem?_eq_none (by omega)]
      rfl

theorem Swept.outlives (hk : Swept h k) (hh : h.Settled)
    (hsup : Buckets.Supplied k.allBuckets) (id : Nat) : Outlives h k id := by
  have hprep := object?_prepare h id
  cases ho : h.object? id with
  | none =>
    rw [ho, Option.map_none] at hprep
    cases hk.fate hh.sound hsup id with
    | vacant before after => exact .vacant ho after
    | reclaimed before hm after =>
      rw [hprep] at before
      cases before
    | kept before hm after content place house =>
      rw [hprep] at before
      cases before
  | some o =>
    have hmark := Object.marked_markIfLive (hh.unmarked ho)
    rw [ho, Option.map_some] at hprep
    cases hk.fate hh.sound hsup id with
    | vacant before after =>
      rw [hprep] at before
      cases before
    | reclaimed before hm after =>
      rw [hprep] at before
      cases before
      exact .reclaimed ho (hmark ▸ hm) after
    | kept before hm after content place house =>
      rw [hprep] at before
      cases before
      rw [Object.unmark_markIfLive (hh.unmarked ho)] at after
      have hs := o.site_markIfLive
      simp only [Object.site, Prod.mk.injEq] at hs
      refine .kept ho (hmark ▸ hm) after (content.trans (content?_prepare h id)) ?_
      rw [← o.isRetained_markIfLive, ← hs.1, place]

theorem Swept.settled (hk : Swept h k) (hh : h.Settled)
    (hsup : Buckets.Supplied k.allBuckets) : k.Settled where
  sound := by
    have hfate := hk.fate hh.sound hsup
    obtain ⟨t, l, hset, rfl⟩ := hk
    have hsound := hset.sound hh.sound.prepare (supplied_retire hsup)
    refine hsound.transfer (.of_objects rfl rfl rfl) rfl rfl ?_ ?_ ?_
    · rw [List.append_nil, reset_retire]
    · intro b hb
      rw [List.append_nil] at hb
      rcases List.mem_append.1 hb with hb | hb
      · exact hsound.bucket b (List.mem_append_left _ (List.mem_append_left _ hb))
      · rcases List.mem_append.1 hb with hb | hb
        · exact hsound.bucket b (List.mem_append_left _ (List.mem_append_right _ hb))
        · obtain ⟨c, hc, rfl⟩ := List.mem_map.1 hb
          exact (hsound.bucket c (List.mem_append_right _ hc)).reset
    · intro id p hp
      rw [List.append_nil]
      cases hfate id with
      | vacant before after =>
        rw [after] at hp
        cases hp
      | reclaimed before hm after =>
        rw [after] at hp
        cases hp
      | @kept o a before hm after content place house =>
        rw [after] at hp
        cases hp
        cases hr : o.isRetained with
        | false => exact house hr
        | true =>
          -- a retained object has not left its bucket, which was not set apart
          rw [place.2 hr]
          rw [object?_prepare] at before
          obtain ⟨q, hq, rfl⟩ := Option.map_eq_some_iff.1 before
          have hs := q.site_markIfLive
          simp only [Object.site, Prod.mk.injEq] at hs
          have hin := hh.sound.housed_pinned hq (by rw [← q.isRetained_markIfLive, hr])
          rw [← hs.1, ← hs.2.2] at hin
          exact hset.keepsHouses _ _ hin
  unmarked := by
    intro id p hp
    cases hk.fate hh.sound hsup id with
    | vacant before after =>
      rw [after] at hp
      cases hp
    | reclaimed before hm after =>
      rw [after] at hp
      cases hp
    | kept before hm after content place house =>
      rw [after] at hp
      cases hp
      rfl

/-! ## Running a collection -/

/-- The heap with its target raised, and one more collection completed. -/
def raised (h : Heap) : Heap :=
  { h with
    target := max h.target (h.config.targetFactor * h.storage)
    collections := h.collections + 1 }

/-- The target that the collection will want is a number that a word holds. -/
def CanRaise (h : Heap) : Prop := h.config.targetFactor * h.storage < Word.limit

theorem run_tabulate (h : Heap) (r : Report) : ∃ ns, (tabulate r).run h = ⟨.ok (), h, ns⟩ := by
  simp only [tabulate, Action.run_bind, Action.run_read]
  split
  · exact ⟨_, rfl⟩
  · exact ⟨[], rfl⟩

theorem run_raiseTarget (h : Heap) :
    (h.CanRaise → raiseTarget.run h = ⟨.ok (), h.raised, []⟩) ∧
      (¬ h.CanRaise → raiseTarget.run h = ⟨.error .productOverflow, h, []⟩) := by
  simp only [raiseTarget, Action.run_bind, Action.run_read]
  constructor
  · intro hc
    rw [Word.mul_of_lt hc]
    rfl
  · intro hc
    rw [Word.mul_eq_error.2 ⟨hc, rfl⟩]
    rfl

/-- The report of a collection that started in `h` and left `k`, with what was counted on
the way. -/
def reportOf (h : Heap) (t : Tally) (k : Heap) : Report where
  moved := t.moved
  reclaimed := t.reclaimed
  held := t.held
  pinnedBuckets := h.pinnedBuckets.length
  storageBefore := h.storage
  storageAfter := k.storage

/-- What is left to do when everything is settled. -/
theorem run_collectNow {t : Tally} {l : Heap} {ns : List Notice}
    (hrun : (settleAll (List.range h.objects.length) {}).run h.prepare = ⟨.ok t, l, ns⟩) :
    ((l.retire h.unpinnedBuckets).CanRaise →
      ∃ ms, collectNow.run h = ⟨.ok (h.reportOf t (l.retire h.unpinnedBuckets)),
        (l.retire h.unpinnedBuckets).raised, ms⟩) ∧
    (¬ (l.retire h.unpinnedBuckets).CanRaise →
      ∃ ms, collectNow.run h = ⟨.error .productOverflow, l.retire h.unpinnedBuckets, ms⟩) := by
  simp only [collectNow, Action.run_bind, Action.run_read, Action.run_update, hrun]
  constructor
  · intro hc
    obtain ⟨ms, htab⟩ := run_tabulate (l.retire h.unpinnedBuckets).raised
      { moved := t.moved, reclaimed := t.reclaimed, held := t.held
        pinnedBuckets := h.pinnedBuckets.length, storageBefore := h.storage
        storageAfter := (l.retire h.unpinnedBuckets).raised.storage }
    simp only [(run_raiseTarget _).1 hc, htab]
    exact ⟨_, rfl⟩
  · intro hc
    simp only [(run_raiseTarget _).2 hc]
    exact ⟨_, rfl⟩

theorem run_collectNow_of_error {e : Fault} {l : Heap} {ns : List Notice}
    (hrun : (settleAll (List.range h.objects.length) {}).run h.prepare = ⟨.error e, l, ns⟩) :
    collectNow.run h = ⟨.error e, l, ns⟩ := by
  simp only [collectNow, Action.run_bind, Action.run_read, Action.run_update, hrun,
    List.nil_append]

/-- The decisions of a collection do not break off. -/
theorem run_settleAll_prepare (hh : h.Settled) (hsup : h.Supplied)
    (hafter : (collectNow.run h).state.Supplied) :
    ∃ t l ns, (settleAll (List.range h.objects.length) {}).run h.prepare = ⟨.ok t, l, ns⟩ ∧
      SettlesAll h.prepare (List.range h.objects.length) {} t l := by
  have hdue : h.prepare.storage + h.liveStorage < Word.limit := by
    have h1 := due_le_volume h.prepare (List.range h.objects.length)
    have h2 := hh.sound.prepare.volume_le (List.nodup_range (n := h.objects.length))
    have h3 : h.prepare.owned < ample := hsup.owned_lt
    have h4 : h.prepare.storage = 0 := rfl
    simp only [liveStorage, ample, Word.limit] at *
    omega
  have hmodest : h.prepare.Modest := hh.sound.prepare.modest hsup.owned_lt
  -- the run of decisions owns no more in the end than the heap after the collection
  have howned : ((settleAll (List.range h.objects.length) {}).run h.prepare).state.owned <
      ample := by
    rcases hrun : (settleAll (List.range h.objects.length) {}).run h.prepare with ⟨r, l, ns⟩
    cases r with
    | error e =>
      rw [run_collectNow_of_error hrun] at hafter
      exact hafter.owned_lt
    | ok t =>
      by_cases hc : (l.retire h.unpinnedBuckets).CanRaise
      · obtain ⟨ms, hcol⟩ := (run_collectNow hrun).1 hc
        rw [hcol] at hafter
        exact hafter.owned_lt
      · obtain ⟨ms, hcol⟩ := (run_collectNow hrun).2 hc
        rw [hcol] at hafter
        exact hafter.owned_lt
  exact settleAll_ok List.nodup_range hmodest hdue howned

/-- A collection settles everything; it breaks off if the target cannot be raised, and
for no other reason. -/
theorem collectNow_cases (hh : h.Settled) (hsup : h.Supplied)
    (hafter : (collectNow.run h).state.Supplied) :
    ∃ k, Swept h k ∧ k.Supplied ∧
      ((k.CanRaise ∧ ∃ r ns, collectNow.run h = ⟨.ok r, k.raised, ns⟩) ∨
        (¬ k.CanRaise ∧ ∃ ns, collectNow.run h = ⟨.error .productOverflow, k, ns⟩)) := by
  obtain ⟨t, l, ns, hrun, hset⟩ := run_settleAll_prepare hh hsup hafter
  refine ⟨l.retire h.unpinnedBuckets, ⟨t, l, hset, rfl⟩, ?_⟩
  by_cases hc : (l.retire h.unpinnedBuckets).CanRaise
  · obtain ⟨ms, hcol⟩ := (run_collectNow hrun).1 hc
    rw [hcol] at hafter
    exact ⟨⟨hafter.blocks, hafter.owned_lt⟩, .inl ⟨hc, _, ms, hcol⟩⟩
  · obtain ⟨ms, hcol⟩ := (run_collectNow hrun).2 hc
    rw [hcol] at hafter
    exact ⟨hafter, .inr ⟨hc, ms, hcol⟩⟩

/-! ## Asking for a collection -/

theorem run_collect_of_inhibited (hin : 0 < h.inhibitors) :
    ∃ ns, collect.run h = ⟨.ok none, { h with wantsCollection := true }, ns⟩ := by
  simp only [collect, Action.run_bind, Action.run_read, if_pos hin]
  exact ⟨_, rfl⟩

theorem run_collect (hin : ¬ 0 < h.inhibitors) :
    collect.run h =
      ⟨(collectNow.run h).answer.map some, (collectNow.run h).state,
        (collectNow.run h).notices⟩ := by
  simp only [collect, Action.run_bind, Action.run_read, if_neg hin]
  rcases collectNow.run h with ⟨r, k, ns⟩
  cases r with
  | error e => rfl
  | ok r => simp [Except.map]

theorem run_collectIfWanted (hw : h.wantsCollection = true) :
    collectIfWanted.run h = collect.run h := by
  simp only [collectIfWanted, Action.run_bind, Action.run_read, hw, if_true, List.nil_append]

theorem run_collectIfWanted_of_not (hw : h.wantsCollection = false) :
    collectIfWanted.run h = ⟨.ok none, h, []⟩ := by
  simp only [collectIfWanted, Action.run_bind, Action.run_read, hw, List.nil_append]
  rfl

end Heap

end PinnedHeap
