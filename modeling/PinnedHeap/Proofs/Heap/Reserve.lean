import PinnedHeap.Proofs.Heap.Invariant

/-!
# Reserving storage

`Heap.Reserves` lists the three ways in which bytes of storage are found, and
`reserve_cases` says that there are no others and when none of them is open.
Whichever it is, one bucket takes the bytes at its cursor: that is a `Slot`.
From it follow the two facts that the rest of the theory uses: the invariant
is kept (`Sound.reserve`) and the bytes are nobody's (`Reserves.offers`).
-/

namespace PinnedHeap

theorem Word.roundUp_mono {m n : Nat} (h : m ≤ n) : roundUp m ≤ roundUp n :=
  roundUp_le (roundUp_mod_size n) (Nat.le_trans h (le_roundUp n))

namespace Heap

/-- The heap with `bytes` bytes more counted as in use. -/
def charged (h : Heap) (bytes : Nat) : Heap :=
  { h with
    storage := h.storage + bytes
    wantsCollection := h.wantsCollection || decide (h.target < h.storage + bytes) }

/-- The size of a bucket that is created for a request of `bytes` bytes. -/
def newCapacity (h : Heap) (bytes : Nat) : Nat :=
  Word.roundUp (max (bucketFactor * bytes) h.config.smallestBucket)

/-- The bucket that is created for a request of `bytes` bytes. -/
def newBucket (h : Heap) (bytes : Nat) : Bucket :=
  ⟨h.created, h.placement h.created, h.newCapacity bytes, 0⟩

/-- No number gets too large when a bucket is created for a request of `bytes` bytes. -/
structure CanCreate (h : Heap) (bytes : Nat) : Prop where
  product_lt : bucketFactor * bytes < Word.limit
  capacity_le : h.newCapacity bytes ≤ Word.largestBlock
  owned_lt : h.owned + h.newCapacity bytes < Word.limit

/-- The heap after `bytes` bytes were reserved, and their address. -/
inductive Reserves (h : Heap) (bytes : Nat) : Nat → Heap → Prop where
  /-- In a bucket in use. -/
  | inUse {before behind : List Bucket} {b : Bucket} (hb : h.buckets = before ++ b :: behind)
      (hfit : bytes ≤ b.free) :
      Reserves h bytes (b.start + b.used)
        { h.charged bytes with buckets := before ++ b.bump bytes :: behind }
  /-- In a bucket that was spare. -/
  | recycled {before behind : List Bucket} {b : Bucket} (hnone : ∀ c ∈ h.buckets, c.free < bytes)
      (hb : h.spare = before ++ b :: behind) (hfit : bytes ≤ b.free) :
      Reserves h bytes (b.start + b.used)
        { h.charged bytes with
          spare := Buckets.closeGap before behind, buckets := h.buckets ++ [b.bump bytes] }
  /-- In a new bucket. -/
  | created (hnone : ∀ c ∈ h.buckets, c.free < bytes) (hspare : ∀ c ∈ h.spare, c.free < bytes)
      (hcan : h.CanCreate bytes) :
      Reserves h bytes (h.placement h.created)
        { h.charged bytes with
          created := h.created + 1, owned := h.owned + h.newCapacity bytes,
          buckets := h.buckets ++ [(h.newBucket bytes).bump bytes] }

variable {h k : Heap} {bytes a : Nat} {away : List Bucket}

/-! ## Running `reserve` -/

theorem run_charge (h : Heap) (bytes : Nat) :
    (charge bytes).run h =
      if h.storage + bytes < Word.limit then ⟨.ok (), h.charged bytes, []⟩
      else ⟨.error .sumOverflow, h, []⟩ := by
  by_cases hs : h.storage + bytes < Word.limit
  · simp only [charge, Action.run_bind, Action.run_read, Word.add_of_lt hs, if_pos hs]
    rfl
  · simp only [charge, Action.run_bind, Action.run_read, Word.add_eq_error.2 ⟨hs, rfl⟩, if_neg hs]
    rfl

theorem run_createBucket (hcan : h.CanCreate bytes) :
    (createBucket bytes).run h =
      ⟨.ok (h.newBucket bytes),
        { h with created := h.created + 1, owned := h.owned + h.newCapacity bytes },
        [.bucketCreated (h.newCapacity bytes)]⟩ := by
  have hle : Word.roundUp (max (bucketFactor * bytes) h.config.smallestBucket) ≤
      Word.largestBlock := hcan.capacity_le
  have hadd : Word.add h.owned (Word.roundUp (max (bucketFactor * bytes) h.config.smallestBucket)) =
      .ok (h.owned + h.newCapacity bytes) := Word.add_of_lt hcan.owned_lt
  simp only [createBucket, Action.run_bind, Action.run_read, Word.mul_of_lt hcan.product_lt,
    Action.run_ofExcept_ok, Bucket.create, if_pos hle, hadd, Action.run_update, Action.run_note]
  rfl

/-- Why no bucket can be created for a request of `bytes` bytes: the first number that gets too
large. -/
def creationFault (h : Heap) (bytes : Nat) : Fault :=
  if ¬ bucketFactor * bytes < Word.limit then .productOverflow
  else if ¬ h.newCapacity bytes ≤ Word.largestBlock then .bucketTooLarge
  else .sumOverflow

theorem run_createBucket_of_not (hcan : ¬ h.CanCreate bytes) :
    (createBucket bytes).run h = ⟨.error (h.creationFault bytes), h, []⟩ := by
  simp only [createBucket, Action.run_bind, Action.run_read, creationFault]
  by_cases hp : bucketFactor * bytes < Word.limit
  swap
  · simp only [Word.mul_eq_error.2 ⟨hp, rfl⟩, if_pos hp]
    rfl
  rw [if_neg (not_not_intro hp)]
  by_cases hc : h.newCapacity bytes ≤ Word.largestBlock
  · have ho : ¬ h.owned + h.newCapacity bytes < Word.limit := fun ho => hcan ⟨hp, hc, ho⟩
    have hadd : Word.add h.owned
        (Word.roundUp (max (bucketFactor * bytes) h.config.smallestBucket)) =
          .error .sumOverflow := Word.add_eq_error.2 ⟨ho, rfl⟩
    rw [if_neg (not_not_intro hc)]
    rw [newCapacity] at hc
    simp only [Word.mul_of_lt hp, Action.run_ofExcept_ok, Bucket.create, if_pos hc, hadd]
    rfl
  · rw [if_pos hc]
    rw [newCapacity] at hc
    simp only [Word.mul_of_lt hp, Action.run_ofExcept_ok, Bucket.create, if_neg hc]
    rfl

theorem le_newCapacity (h : Heap) (bytes : Nat) : bytes ≤ h.newCapacity bytes := by
  have h1 := Word.le_roundUp (max (bucketFactor * bytes) h.config.smallestBucket)
  have h2 : bucketFactor * bytes ≤ max (bucketFactor * bytes) h.config.smallestBucket :=
    Nat.le_max_left ..
  simp only [newCapacity, bucketFactor] at *
  omega

/-- Storage is found in one of the three ways, or none of them is open. -/
theorem reserve_cases (h : Heap) (hw : bytes % Word.size = 0) :
    (h.storage + bytes < Word.limit ∧
      ∃ a k ns, (reserve bytes).run h = ⟨.ok a, k, ns⟩ ∧ Reserves h bytes a k) ∨
    (¬ h.storage + bytes < Word.limit ∧ (reserve bytes).run h = ⟨.error .sumOverflow, h, []⟩) ∨
    (h.storage + bytes < Word.limit ∧ (∀ b ∈ h.allBuckets, b.free < bytes) ∧
      ¬ h.CanCreate bytes ∧
      (reserve bytes).run h = ⟨.error (h.creationFault bytes), h.charged bytes, []⟩) := by
  by_cases hs : h.storage + bytes < Word.limit
  swap
  · refine .inr (.inl ⟨hs, ?_⟩)
    simp only [reserve, Action.run_bind, run_charge, if_neg hs]
  -- the buckets are searched after the bytes were counted
  have hbuckets : (h.charged bytes).buckets = h.buckets := rfl
  have hspare : (h.charged bytes).spare = h.spare := rfl
  simp only [reserve, Action.run_bind, run_charge, if_pos hs, Action.run_read, hbuckets]
  cases hfit : Buckets.firstFit bytes h.buckets with
  | some found =>
    obtain ⟨before, b, behind⟩ := found
    obtain ⟨hb, hle, -⟩ := Buckets.firstFit_eq_some hfit
    refine .inl ⟨hs, _, _, [], ?_, .inUse hb hle⟩
    simp only [Action.run_bind, Bucket.allocate_of_fits hw hle, Action.run_ofExcept_ok,
      Action.run_update, Action.run_pure]
    rfl
  | none =>
    have hnone := Buckets.firstFit_eq_none.1 hfit
    simp only [reserveOutside, obtainBucket, Action.run_bind, Action.run_read, hspare]
    cases hfit' : Buckets.firstFit bytes h.spare with
    | some found =>
      obtain ⟨before, b, behind⟩ := found
      obtain ⟨hb, hle, -⟩ := Buckets.firstFit_eq_some hfit'
      refine .inl ⟨hs, _, _, [], ?_, .recycled hnone hb hle⟩
      simp only [Action.run_bind, Action.run_update, Action.run_pure, Bucket.allocate_of_fits hw hle,
        Action.run_ofExcept_ok]
      rfl
    | none =>
      have hnone' := Buckets.firstFit_eq_none.1 hfit'
      by_cases hcan : h.CanCreate bytes
      · refine .inl ⟨hs, _, _, [.bucketCreated (h.newCapacity bytes)], ?_,
          .created hnone hnone' hcan⟩
        have hcan' : (h.charged bytes).CanCreate bytes := ⟨hcan.1, hcan.2, hcan.3⟩
        have hle : bytes ≤ ((h.charged bytes).newBucket bytes).free := le_newCapacity h bytes
        simp only [run_createBucket hcan', Bucket.allocate_of_fits hw hle, Action.run_ofExcept_ok,
          Action.run_update, Action.run_pure]
        rfl
      · have hcan' : ¬ (h.charged bytes).CanCreate bytes := fun hc => hcan ⟨hc.1, hc.2, hc.3⟩
        refine .inr (.inr ⟨hs, ?_, hcan, ?_⟩)
        · intro b hb
          rcases List.mem_append.1 hb with hb | hb
          · exact hnone b hb
          · exact hnone' b hb
        · simp only [run_createBucket_of_not hcan', List.nil_append]
          rfl

/-! ## What is left as it was -/

namespace Reserves

theorem frame (hr : Reserves h bytes a k) :
    k = { h.charged bytes with
      buckets := k.buckets, spare := k.spare, created := k.created, owned := k.owned } := by
  cases hr <;> rfl

theorem objects (hr : Reserves h bytes a k) : k.objects = h.objects := by rw [hr.frame]; rfl

theorem memory (hr : Reserves h bytes a k) : k.memory = h.memory := by rw [hr.frame]; rfl

theorem config (hr : Reserves h bytes a k) : k.config = h.config := by rw [hr.frame]; rfl

theorem vacant (hr : Reserves h bytes a k) : k.vacant = h.vacant := by rw [hr.frame]; rfl

theorem index (hr : Reserves h bytes a k) : k.index = h.index := by rw [hr.frame]; rfl

theorem storage (hr : Reserves h bytes a k) : k.storage = h.storage + bytes := by
  rw [hr.frame]; rfl

theorem object? (hr : Reserves h bytes a k) (id : Nat) : k.object? id = h.object? id := by
  simp only [Heap.object?, hr.objects]

end Reserves

/-! ## The bucket that takes the bytes -/

/-- Bucket `b` has taken `bytes` bytes at its cursor, and the buckets `others` are as
before. -/
structure Slot (h k : Heap) (bytes a : Nat) (b : Bucket) (others : List Bucket) : Prop where
  address : a = b.start + b.used
  fits : bytes ≤ b.free
  after : k.allBuckets.Perm (b.bump bytes :: others)
  before : (h.allBuckets.Perm (b :: others) ∧ k.owned = h.owned) ∨
    (h.allBuckets.Perm others ∧ b = h.newBucket bytes ∧ h.CanCreate bytes ∧
      k.owned = h.owned + b.capacity)
  inUse : b.bump bytes ∈ k.buckets
  kept : ∀ c ∈ h.buckets, c = b ∨ c ∈ k.buckets

theorem Reserves.slot (hr : Reserves h bytes a k) : ∃ b others, Slot h k bytes a b others := by
  cases hr with
  | @inUse before behind b hb hfit =>
    refine ⟨b, before ++ behind ++ h.spare, rfl, hfit, ?_, .inl ⟨?_, rfl⟩, by simp, ?_⟩
    · simp only [allBuckets, charged, List.append_assoc, List.cons_append]
      exact List.perm_middle
    · simp only [allBuckets, hb, List.append_assoc, List.cons_append]
      exact List.perm_middle
    · intro c hc
      rw [hb, List.mem_append, List.mem_cons] at hc
      simp only [List.mem_append, List.mem_cons]
      rcases hc with hc | rfl | hc
      · exact .inr (.inl hc)
      · exact .inl rfl
      · exact .inr (.inr (.inr hc))
  | @recycled before behind b hnone hb hfit =>
    refine ⟨b, h.buckets ++ (before ++ behind), rfl, hfit, ?_, .inl ⟨?_, rfl⟩, by simp, ?_⟩
    · simp only [allBuckets, List.append_assoc, List.singleton_append]
      refine List.perm_middle.trans (List.Perm.cons _ (List.Perm.append_left _ ?_))
      exact Buckets.closeGap_perm before behind
    · simp only [allBuckets, hb]
      rw [← List.append_assoc, ← List.append_assoc]
      exact List.perm_middle
    · intro c hc
      exact .inr (List.mem_append_left _ hc)
  | created hnone hspare hcan =>
    refine ⟨h.newBucket bytes, h.allBuckets, rfl, le_newCapacity h bytes, ?_,
      .inr ⟨List.Perm.refl _, rfl, hcan, rfl⟩, by simp, ?_⟩
    · simp only [allBuckets, List.append_assoc, List.singleton_append]
      exact List.perm_middle
    · intro c hc
      exact .inr (List.mem_append_left _ hc)

theorem Reserves.extends (hr : Reserves h bytes a k) : Extends h k := by
  obtain ⟨b, others, hs⟩ := hr.slot
  have hafter := hs.after.map Bucket.reset
  rw [List.map_cons, Bucket.reset_bump] at hafter
  rcases hs.before with ⟨hperm, ho⟩ | ⟨hperm, -, -, ho⟩
  · refine ⟨?_, Nat.le_of_eq ho.symm⟩
    exact ((hperm.map Bucket.reset).trans hafter.symm).subperm
  · refine ⟨?_, by omega⟩
    refine ((hperm.map Bucket.reset).subperm.trans ?_).trans hafter.symm.subperm
    exact (List.sublist_cons_self _ _).subperm

theorem sound_newBucket {h : Heap} (hpos : 0 < bytes) (hcan : h.CanCreate bytes) :
    (h.newBucket bytes).Sound where
  used_le := Nat.zero_le _
  used_words := rfl
  capacity_words := Word.roundUp_mod_size _
  capacity_pos := Nat.lt_of_lt_of_le hpos (le_newCapacity h bytes)
  capacity_le := hcan.capacity_le

namespace Slot

variable {b : Bucket} {others : List Bucket}

theorem bucket_sound (hs : Slot h k bytes a b others) (hpos : 0 < bytes)
    (hh : ∀ c ∈ h.allBuckets, c.Sound) : b.Sound := by
  rcases hs.before with ⟨hperm, -⟩ | ⟨-, rfl, hcan, -⟩
  · exact hh b (hperm.mem_iff.2 List.mem_cons_self)
  · exact sound_newBucket hpos hcan

theorem mem_others (hs : Slot h k bytes a b others) {c : Bucket} (hc : c ∈ others) :
    c ∈ h.allBuckets := by
  rcases hs.before with ⟨hperm, -⟩ | ⟨hperm, -⟩
  · exact hperm.mem_iff.2 (List.mem_cons_of_mem _ hc)
  · exact hperm.mem_iff.2 hc

theorem eq_or_mem_others (hs : Slot h k bytes a b others) {c : Bucket} (hc : c ∈ h.allBuckets) :
    c = b ∨ c ∈ others := by
  rcases hs.before with ⟨hperm, -⟩ | ⟨hperm, -⟩
  · exact List.mem_cons.1 (hperm.mem_iff.1 hc)
  · exact .inr (hperm.mem_iff.1 hc)

end Slot

/-! ## The invariant, and the bytes that were reserved -/

theorem Sound.reserve (hh : h.Sound away) (hr : Reserves h bytes a k)
    (hw : bytes % Word.size = 0) (hpos : 0 < bytes) : k.Sound away := by
  obtain ⟨b, others, hs⟩ := hr.slot
  have hb : b.Sound := hs.bucket_sound hpos fun c hc => hh.bucket c (List.mem_append_left _ hc)
  have hmem : ∀ c ∈ k.allBuckets ++ away, c = b.bump bytes ∨ c ∈ h.allBuckets ++ away := by
    intro c hc
    rcases List.mem_append.1 hc with hc | hc
    · rcases List.mem_cons.1 (hs.after.mem_iff.1 hc) with rfl | hc
      · exact .inl rfl
      · exact .inr (List.mem_append_left _ (hs.mem_others hc))
    · exact .inr (List.mem_append_right _ hc)
  exact {
    bucket := by
      intro c hc
      rcases hmem c hc with rfl | hc
      · exact hb.bump hw hs.fits
      · exact hh.bucket c hc
    smallest := by
      intro c hc
      rw [hr.config]
      rcases hmem c hc with rfl | hc
      · rcases hs.before with ⟨hperm, -⟩ | ⟨-, rfl, -⟩
        · exact hh.smallest b (List.mem_append_left _ (hperm.mem_iff.2 List.mem_cons_self))
        · exact Word.roundUp_mono (Nat.le_max_right ..)
      · exact hh.smallest c hc
    owned := by
      have hafter : Buckets.total k.allBuckets = b.capacity + Buckets.total others := by
        rw [Buckets.total_perm hs.after, Buckets.total_cons, Bucket.capacity_bump]
      have hbefore := hh.owned
      rw [Buckets.total_append] at hbefore ⊢
      rcases hs.before with ⟨hperm, ho⟩ | ⟨hperm, -, -, ho⟩
      · rw [Buckets.total_perm hperm, Buckets.total_cons] at hbefore
        omega
      · rw [Buckets.total_perm hperm] at hbefore
        omega
    object := fun ho => hh.object (hr.object? _ ▸ ho)
    housed := by
      intro id o ho
      obtain ⟨c, hc, hhouse⟩ := hh.housed (hr.object? id ▸ ho)
      rcases List.mem_append.1 hc with hc | hc
      · rcases hs.kept c hc with rfl | hc
        · exact ⟨_, List.mem_append_left _ hs.inUse, hhouse.bump bytes⟩
        · exact ⟨c, List.mem_append_left _ hc, hhouse⟩
      · exact ⟨c, List.mem_append_right _ hc, hhouse⟩
    apart := fun ho hp hij => hh.apart (hr.object? _ ▸ ho) (hr.object? _ ▸ hp) hij
    index_sorted := hr.index ▸ hh.index_sorted
    index_iff := by
      intro b id
      rw [hr.index, hr.object?, hh.index_iff]
    vacant_nodup := hr.vacant ▸ hh.vacant_nodup
    vacant_iff := by
      intro id
      rw [hr.vacant, hr.objects, hr.object?, hh.vacant_iff] }

/-- What is reserved is no object's: it lies behind everything in its own bucket, and
other buckets lie elsewhere. -/
theorem Reserves.offers (hr : Reserves h bytes a k) (hh : h.Sound away)
    (hw : bytes % Word.size = 0) (hpos : 0 < bytes)
    (hsup : Buckets.Supplied (k.allBuckets ++ away)) : k.Offers a bytes := by
  obtain ⟨b, others, hs⟩ := hr.slot
  have hb : b.Sound := hs.bucket_sound hpos fun c hc => hh.bucket c (List.mem_append_left _ hc)
  have hhouse : (b.bump bytes).Houses a bytes := by
    have hword := hb.used_words
    refine ⟨?_, ?_, ?_⟩ <;> simp only [hs.address, Bucket.start_bump, Bucket.used_bump]
    · omega
    · omega
    · rw [Nat.add_sub_cancel_left, hword]
  refine ⟨⟨_, hs.inUse, hhouse⟩, ?_⟩
  intro id o ho
  obtain ⟨c, hc, hin⟩ := hh.housed (hr.object? id ▸ ho)
  have hapart : (b.bump bytes :: (others ++ away)).Pairwise Bucket.Apart :=
    ((hs.after.append_right away).pairwise_iff Bucket.Apart.symm).1 hsup.apart
  have hall := mem_allBuckets_append hc
  have hcase : c = b ∨ c ∈ others ++ away := by
    rcases List.mem_append.1 hall with hc | hc
    · exact (hs.eq_or_mem_others hc).imp_right (List.mem_append_left _)
    · exact .inr (List.mem_append_right _ hc)
  rcases hcase with rfl | hcase
  · -- in the same bucket: the object lies in front of the cursor
    exact .inl (hs.address ▸ hin.stop_le)
  · have hbc : b.Apart c := List.rel_of_pairwise_cons hapart hcase
    exact (hhouse.avoids hin (hb.bump hw hs.fits) (hh.bucket c hall) hbc).symm

end Heap

end PinnedHeap
