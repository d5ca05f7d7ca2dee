import PinnedHeap.Proofs.Heap.Evacuation

/-!
# Collections on their way

While a collection goes through the objects, the buckets that it has set apart
are on no list of the heap, and objects still lie in them. If it broke off
then, those buckets would be lost and the objects with them. It does not: what
it reserves it has room for, and the numbers that it forms are bounded by the
bytes that the heap owns. `Halfway` is what holds on the way, `Concluded` what
holds when everything has been decided about.

The one number that can be too large is the target that the collection wants,
and it is formed last.
-/

namespace PinnedHeap.Heap

variable {placement : Nat → Nat} {config : Config} {h k l m : Heap} {c : Call}
  {past rest : List Nat} {t u : Tally}

/-! ## On the way -/

/-- A collection of `h` is on its way, and `m` is the heap by now. Every object lies in a bucket
that is in use or has been set apart, every bucket of `h` is still there, and the counts and the
addresses of the buckets are numbers that a word holds. -/
structure Halfway (h m : Heap) : Prop where
  housed : ∀ id o, m.object? id = some o → ∃ b ∈ m.buckets ++ h.unpinnedBuckets, b.Holds o
  blocks : (h.allBuckets.map Bucket.reset).Subperm
    ((m.allBuckets ++ h.unpinnedBuckets).map Bucket.reset)
  bounded : ∀ b ∈ m.allBuckets ++ h.unpinnedBuckets, b.used ≤ b.capacity ∧ b.stop < Word.limit
  storage_le : m.storage ≤ m.owned
  owned_lt : m.owned < Word.limit

/-- What is counted on the way lies in the buckets of the heap. -/
theorem SettlesAll.storage_le (hs : SettlesAll h.prepare past {} u m) (hn : past.Nodup)
    (hh : h.Sound []) : m.storage ≤ m.owned := by
  calc m.storage
      = h.prepare.due past := by
        rw [hs.storage hn]
        exact Nat.zero_add _
    _ ≤ h.prepare.volume past := due_le_volume h.prepare past
    _ ≤ h.prepare.owned := hh.prepare.volume_le hn
    _ ≤ m.owned := hs.extends.owned_le

theorem Settled.halfway (hh : h.Settled) (hbefore : SettlesAll h.prepare past {} u m)
    (hbehind : SettlesAll m rest u t l) (hn : past.Nodup)
    (hafter : (l.retire h.unpinnedBuckets).Supplied) : Halfway h m := by
  have hblocks : Buckets.Supplied (m.allBuckets ++ h.unpinnedBuckets) :=
    hbehind.extends.supplied (supplied_retire hafter.blocks)
  have hsound : m.Sound h.unpinnedBuckets := hbefore.sound hh.sound.prepare hblocks
  constructor
  · intro id o ho
    obtain ⟨b, hb, hin⟩ := hsound.housed ho
    exact ⟨b, hb, hin.holds⟩
  · exact hbefore.blocks
  · intro b hb
    exact ⟨(hsound.bucket b hb).used_le, hblocks.stop_lt b hb⟩
  · exact hbefore.storage_le hn hh.sound
  · have hle : m.owned ≤ l.owned := hbehind.extends.owned_le
    have hlt : l.owned < ample := hafter.owned_lt
    simp only [ample, Word.limit] at *
    omega

/-- A collection gets from the first object to any other, and from there to the last. -/
theorem Settled.run_past (hh : h.Settled) (hsup : h.Supplied)
    (hafter : (collectNow.run h).state.Supplied) (hpast : past <+: List.range h.objects.length) :
    ∃ t m ns, (settleAll past {}).run h.prepare = ⟨.ok t, m, ns⟩ ∧ Halfway h m := by
  obtain ⟨t, l, ns, hrun, -⟩ := run_settleAll_prepare hh hsup hafter
  obtain ⟨rest, hids⟩ := hpast
  have hn : past.Nodup := (List.nodup_append.1 (hids ▸ List.nodup_range)).1
  have hretire : (l.retire h.unpinnedBuckets).Supplied := by
    by_cases hcan : (l.retire h.unpinnedBuckets).CanRaise
    · obtain ⟨ms, hcol⟩ := (run_collectNow hrun).1 hcan
      rw [hcol] at hafter
      exact ⟨hafter.blocks, hafter.owned_lt⟩
    · obtain ⟨ms, hcol⟩ := (run_collectNow hrun).2 hcan
      rw [hcol] at hafter
      exact hafter
  rw [← hids] at hrun
  obtain ⟨u, m, ms, hrunPast, hbefore, hbehind⟩ :=
    settlesAll_append_of_run hh.sound.prepare.worded hrun
  exact ⟨u, m, ms, hrunPast, hh.halfway hbefore hbehind hn hretire⟩

/-! ## At the end -/

/-- A collection of `h` has left `k` and has only the target to raise: every object has met its
fate, the table, the index and the vacant ids agree, the storage of what is left is counted, the
buckets are sorted and none has got lost. -/
structure Concluded (h k : Heap) : Prop where
  objects : ∀ id, Outlives h k id
  laidOut : k.LaidOut
  index : k.index.entries.Perm k.roster
  vacant : k.vacant.Perm k.gaps
  storage : k.storage = (k.existing.map Object.footprint).sum
  buckets : Cleared h k
  blocks : Extends h k
  settings : SameSettings h k
  unwanted : k.wantsCollection = false

theorem Swept.concluded (hk : Swept h k) (hh : h.Settled) (hsup : h.Supplied)
    (hafter : k.Supplied) : Concluded h k := by
  have hset := hk.settled hh hafter.blocks
  exact {
    objects := hk.outlives hh hafter.blocks
    laidOut := hset.laidOut hafter
    index := hset.sound.index_perm
    vacant := hset.sound.vacant_perm
    storage := hk.storage.trans (hk.liveStorage_eq hh hafter.blocks)
    buckets := hk.cleared hh hsup hafter
    blocks := hk.extends
    settings := hk.settings
    unwanted := hk.wantsCollection }

/-- A collection that is not put off decides about every object, whatever was asked of the heap
before and whichever calls have broken off. Then it is completed, unless the target that it wants
is too large a number; that is the only fault there is, and what the collection had to do is done
by then. -/
theorem Reached.collection_never_fails_halfway (hr : Reached placement config h)
    (hc : h.Collects c) (hin : h.inhibitors = 0) (hafter : (c.run.run h).state.Supplied) :
    (∀ past, past <+: List.range h.objects.length →
      ∃ t m ns, (settleAll past {}).run h.prepare = ⟨.ok t, m, ns⟩ ∧ Halfway h m) ∧
    ∃ k, Concluded h k ∧
      (h.config.targetFactor * k.storage < Word.limit →
        (∃ r, (c.run.run h).answer = .ok (.report (some r))) ∧ (c.run.run h).state = k.raised) ∧
      (Word.limit ≤ h.config.targetFactor * k.storage →
        (c.run.run h).answer = .error .productOverflow ∧ (c.run.run h).state = k) := by
  have hh := hr.settled
  have hsup := hr.supplied
  rw [state_of_collects hc hin] at hafter ⊢
  rw [answer_of_collects hc hin]
  refine ⟨fun past hpast => hh.run_past hsup hafter hpast, ?_⟩
  obtain ⟨k, hk, hsupk, hcase⟩ := collectNow_cases hh hsup hafter
  have hraise : k.CanRaise ↔ h.config.targetFactor * k.storage < Word.limit := by
    rw [CanRaise, hk.settings.config]
  refine ⟨k, hk.concluded hh hsup hsupk, ?_⟩
  rcases hcase with ⟨hcan, r, ns, hrun⟩ | ⟨hcan, ns, hrun⟩
  · rw [hrun]
    have hlt := hraise.1 hcan
    exact ⟨fun _ => ⟨⟨r, rfl⟩, rfl⟩, fun hge => absurd hlt (Nat.not_lt.2 hge)⟩
  · rw [hrun]
    exact ⟨fun hlt => absurd (hraise.2 hlt) hcan, fun _ => ⟨rfl, rfl⟩⟩

/-- A request that cannot be met has been counted, and the target is raised by so large a factor
that the next collection breaks off when all is done: two objects are held, one is moved, one is
given up, and only the target is as it was. -/
theorem crowded_collection_breaks_off_at_the_end :
    ∃ h k, Reached (spaced 0x10000 0x10000) ⟨64, 64, 0x4000000000000000, false⟩ h ∧
      h.inhibitors = 0 ∧ (Call.collect.run.run h).state.Supplied ∧
      h.storage = 0x1000000000000000 + 528 ∧
      (∀ past, past <+: [0, 1, 2, 3] →
        ∃ t m ns, (settleAll past {}).run h.prepare = ⟨.ok t, m, ns⟩ ∧ Halfway h m) ∧
      Concluded h k ∧ k.storage = 464 ∧
      (Call.collect.run.run h).answer = .error .productOverflow ∧
      (Call.collect.run.run h).state = k := by
  have hrun : ((create (spaced 0x10000 0x10000) ⟨64, 64, 0x4000000000000000, false⟩).calls?
      [.allocate 8, .allocate 8, .allocate 64, .allocate 448, .retain 0x10000, .retain 0x10008,
        .retain 0x10008, .unroot 0, .unroot 2, .allocate 0x1000000000000000]).map
      (fun h => (h.inhibitors, h.storage, h.config.targetFactor, h.objects.length,
        decide (Call.collect.run.run h).state.Supplied, (Call.collect.run.run h).state.storage)) =
      some (0, 0x1000000000000000 + 528, 0x4000000000000000, 4, true, 464) := by
    decide +kernel
  obtain ⟨h, hcalls, heq⟩ := Option.map_eq_some_iff.1 hrun
  simp only [Prod.mk.injEq, decide_eq_true_eq] at heq
  obtain ⟨hin, hstorage, hfactor, hlength, hsup, hafter⟩ := heq
  have hr := Reached.create.of_calls? hcalls
  obtain ⟨hway, k, hk, hcompletes, hbreaks⟩ :=
    hr.collection_never_fails_halfway (c := .collect) trivial hin hsup
  have hstate : (Call.collect.run.run h).state.storage = k.storage := by
    rcases Nat.lt_or_ge (h.config.targetFactor * k.storage) Word.limit with hlt | hge
    · rw [(hcompletes hlt).2]
      rfl
    · rw [(hbreaks hge).2]
  have hk464 : k.storage = 464 := hstate.symm.trans hafter
  rw [hlength] at hway
  obtain ⟨hanswer, heq⟩ := hbreaks (by rw [hfactor, hk464]; decide)
  exact ⟨h, k, hr, hin, hsup, hstorage, hway, hk, hk464, hanswer, heq⟩

end PinnedHeap.Heap
