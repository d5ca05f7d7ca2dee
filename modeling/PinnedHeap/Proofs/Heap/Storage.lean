import PinnedHeap.Proofs.Heap.Unbroken

/-!
# Storage that is in use

What a heap counts as in use is the storage of the objects in its table, dead
ones included, as long as no call has broken off (a request that cannot be met
has been counted by then). It is not what is in use in the buckets: there the
cursors stand behind everything that was ever reserved, and a collection moves
none of them back in a bucket that it keeps. But objects that exist share no
byte and lie in front of the cursors, so the count is no larger.
-/

namespace PinnedHeap.Heap

variable {placement : Nat → Nat} {config : Config} {h k : Heap} {c : Call} {x : Answer}
  {r : Report} {ids : List Nat} {ts : List Turn}

/-! ## The count -/

/-- What exists counts as in use, and nothing else does. -/
def Exact (h : Heap) : Prop := h.storage = (h.existing.map Object.footprint).sum

theorem Sites.sum_footprint (hs : Sites h k) :
    (k.existing.map Object.footprint).sum = (h.existing.map Object.footprint).sum := by
  rw [← sum_range, ← sum_range, hs.length]
  refine congrArg List.sum (List.map_congr_left fun id _ => ?_)
  have hfootprint : ∀ p : Option Object,
      p.elim 0 Object.footprint = (p.map Object.site).elim 0 fun site => site.2.2 := by
    intro p
    cases p <;> rfl
  rw [hfootprint, hs.site, ← hfootprint]

theorem Exact.allocated {len a : Nat} (hc : h.Exact) (hk : k.Sound [])
    (hres : Reserves h (Word.roundUp len) a k) : (k.furnish (.fresh a len)).Exact := by
  have hexisting : k.existing = h.existing := by rw [existing, hres.objects, existing]
  calc (k.furnish (.fresh a len)).storage
      = Word.roundUp len + (h.existing.map Object.footprint).sum := by
        rw [storage_furnish, hres.storage, hc, Nat.add_comm]
    _ = ((Object.fresh a len :: k.existing).map Object.footprint).sum := by
        rw [List.map_cons, List.sum_cons, hexisting]
        rfl
    _ = ((k.furnish (.fresh a len)).existing.map Object.footprint).sum :=
        ((hk.existing_furnish _).map _).sum_eq.symm

theorem Answers.exact_count (ha : Answers h c x k) (hh : h.Settled)
    (hsup : Buckets.Supplied k.allBuckets) (hc : h.Exact) : k.Exact := by
  cases ha with
  | allocated hpos hres =>
    rw [allBuckets_furnish] at hsup
    exact hc.allocated (hh.furnish hpos hres hsup).2.1 hres
  | @altered c x k hstores ha =>
    have hstorage : k.storage = h.storage := by cases ha <;> rfl
    rw [Exact, hstorage, ha.sites.sum_footprint]
    exact hc
  | deferred hcol hin => exact hc
  | collected hcol hin hk =>
    obtain ⟨m, hm, -, rfl⟩ := hk.swept
    exact hm.storage.trans (hm.liveStorage_eq hh hsup)
  | unwanted hwants => exact hc

theorem Unbroken.exact_count (hr : Unbroken placement config ts h)
    (hsup : Buckets.Supplied h.allBuckets) : h.Exact := by
  induction hr with
  | create => rfl
  | call c hr hans ih =>
    have ha := hr.answers hans
    have hblocks := hsup.covers ha.extends.blocks
    exact ha.exact_count (hr.settled hblocks) hsup (ih hblocks)

/-! ## What a collection gives back -/

/-- The ids of the objects that have been given up on the way from `h` to `k`. -/
def lost (h k : Heap) : List Nat :=
  (List.range h.objects.length).filter fun id => (h.object? id).isSome && (k.object? id).isNone

theorem volume_eq_add_filter {p : Nat → Bool}
    (hid : ∀ id ∈ ids, h.footprintAt id = k.footprintAt id + if p id then h.footprintAt id else 0) :
    h.volume ids = k.volume ids + h.volume (ids.filter p) := by
  induction ids with
  | nil => rfl
  | cons id ids ih =>
    have hhead := hid id List.mem_cons_self
    have hrest := ih fun j hj => hid j (List.mem_cons_of_mem id hj)
    simp only [volume, List.map_cons, List.sum_cons, List.filter_cons] at hrest ⊢
    cases hp : p id with
    | true =>
      rw [hp, if_pos rfl] at hhead
      rw [if_pos rfl, List.map_cons, List.sum_cons]
      omega
    | false =>
      rw [hp] at hhead
      simp only [Bool.false_eq_true, if_false] at hhead ⊢
      omega

theorem volume_range (h : Heap) :
    h.volume (List.range h.objects.length) = (h.existing.map Object.footprint).sum :=
  sum_range h Object.footprint

/-- What existed before a collection exists after it or has been given up. -/
theorem Swept.sum_footprint (hk : Swept h k) (hh : h.Settled)
    (hsup : Buckets.Supplied k.allBuckets) :
    (h.existing.map Object.footprint).sum =
      (k.existing.map Object.footprint).sum + h.volume (h.lost k) := by
  rw [← volume_range, ← volume_range, hk.length, lost]
  apply volume_eq_add_filter
  intro id _
  unfold footprintAt
  cases hk.outlives hh hsup id with
  | vacant before after => rw [before, after]; rfl
  | reclaimed before dead after => rw [before, after]; simp
  | kept before live after content place => rw [before, after]; simp

/-! ## Histories -/

/-- What the heap counts as in use is the storage of what exists, that is in use in the buckets,
and that in turn is owned. -/
structure Accounted (h : Heap) : Prop where
  exact : h.storage = (h.existing.map Object.footprint).sum
  inUse : h.storage ≤ (h.buckets.map Bucket.used).sum
  owned : (h.buckets.map Bucket.used).sum ≤ h.owned

theorem Settled.accounted (hh : h.Settled) (hc : h.Exact) : h.Accounted where
  exact := hc
  inUse := by
    have hle := hh.sound.volume_le_inUse (List.nodup_range (n := h.objects.length))
    rw [List.append_nil, volume_range, ← hc] at hle
    exact hle
  owned := by
    have hle := hh.sound.inUse_le
    rw [List.append_nil] at hle
    exact hle

/-- As long as no call has broken off, what counts as in use is accounted for, and a collection
that is completed takes from the count what it gives up. -/
theorem Unbroken.storage_accounted (hr : Unbroken placement config ts h)
    (hsup : Buckets.Supplied h.allBuckets) :
    h.Accounted ∧
      ∀ (c : Call) (r : Report), (c.run.run h).answer = .ok (.report (some r)) →
        Buckets.Supplied (c.run.run h).state.allBuckets →
        r.storageBefore = h.storage ∧ r.storageAfter = (c.run.run h).state.storage ∧
          r.storageBefore = r.storageAfter + h.volume (h.lost (c.run.run h).state) := by
  have hh := hr.settled hsup
  have hc := hr.exact_count hsup
  refine ⟨hh.accounted hc, ?_⟩
  intro c r hans hafter
  obtain ⟨-, -, hcomp⟩ := hr.completes hans
  obtain ⟨hbefore, hafterwards⟩ := hcomp.storage
  refine ⟨hbefore, hafterwards, ?_⟩
  obtain ⟨m, hm, -, heq⟩ := hcomp.swept
  rw [heq] at hafter hafterwards ⊢
  rw [hbefore, hafterwards, hc, hm.sum_footprint hh hafter, ← hm.liveStorage_eq hh hafter,
    ← hm.storage]
  rfl

/-- A bucket that was kept has a hole where an object was given up, and another object is dead
but has not been collected yet. -/
theorem holed_storage_accounted :
    ∃ ts h, Unbroken (spaced 0x10000 0x10000) ⟨64, 64, 2, false⟩ ts h ∧
      Buckets.Supplied h.allBuckets ∧ h.Accounted ∧
      [h.storage, (h.buckets.map Bucket.used).sum, h.owned] = [96, 112, 1088] ∧
      Buckets.Supplied (Call.collect.run.run h).state.allBuckets ∧
      (Call.collect.run.run h).answer = .ok (.report (some ⟨1, 1, 1, 1, 96, 32⟩)) ∧
      h.lost (Call.collect.run.run h).state = [2] ∧ 96 = 32 + h.volume [2] := by
  have hrun : ((create (spaced 0x10000 0x10000) ⟨64, 64, 2, false⟩).answered?
      [.allocate 8, .allocate 16, .allocate 64, .retain 0x10000, .unroot 1, .collect, .allocate 24,
        .unroot 2]).map
      (fun h => (decide (Buckets.Supplied h.allBuckets),
        [h.storage, (h.buckets.map Bucket.used).sum, h.owned],
        decide (Buckets.Supplied (Call.collect.run.run h).state.allBuckets),
        (Call.collect.run.run h).answer.toOption, h.lost (Call.collect.run.run h).state)) =
      some (true, [96, 112, 1088], true, some (.report (some ⟨1, 1, 1, 1, 96, 32⟩)), [2]) := by
    decide +kernel
  obtain ⟨h, hcalls, heq⟩ := Option.map_eq_some_iff.1 hrun
  simp only [Prod.mk.injEq, decide_eq_true_eq] at heq
  obtain ⟨hsup, hcounts, hafter, hanswer, hlost⟩ := heq
  obtain ⟨ts, hr⟩ := Unbroken.create.of_answered? hcalls
  have hans := answer_of_toOption hanswer
  obtain ⟨haccounted, hcollections⟩ := hr.storage_accounted hsup
  obtain ⟨-, -, hgiven⟩ := hcollections .collect _ hans hafter
  rw [hlost] at hgiven
  exact ⟨_, h, hr, hsup, haccounted, hcounts, hafter, hans, hlost, hgiven⟩

end PinnedHeap.Heap
