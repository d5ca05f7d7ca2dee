import PinnedHeap.Proofs.Heap.Layout

/-!
# The stock of buckets

Buckets go from one list to another: a reservation takes a spare one into use
or creates one, a collection sets some apart and makes them spare at the end.
`Stocked` says what is true of the lists at all times, also while a collection
has buckets `away`: every bucket that was created is on one list and on no
other, what is in use is not empty and what is spare is.

That a bucket in use houses an object is true at the end of a collection only,
since objects die. `Occupied` is the invariant that leads there.
-/

namespace PinnedHeap.Heap

variable {h k : Heap} {away : List Bucket} {id bytes a : Nat} {ids : List Nat} {t t' : Tally}

/-- The buckets by their lists. -/
structure Stocked (h : Heap) (away : List Bucket) : Prop where
  numbered : ((h.allBuckets ++ away).map Bucket.number).Perm (List.range h.created)
  used : ∀ b ∈ h.buckets, 0 < b.used
  spare : ∀ b ∈ h.spare, b.used = 0

/-! ## Reserving storage -/

/-- Bucket `b` takes the bytes, and the lists are otherwise no longer than before. -/
structure Takes (h k : Heap) (bytes a : Nat) (b : Bucket) : Prop where
  address : a = b.start + b.used
  fits : bytes ≤ b.free
  origin : b ∈ h.allBuckets ∨ b = h.newBucket bytes
  taken : b.bump bytes ∈ k.buckets
  buckets : ∀ c ∈ k.buckets, c = b.bump bytes ∨ c ∈ h.buckets
  spare : ∀ c ∈ k.spare, c ∈ h.spare

theorem Reserves.takes (hr : Reserves h bytes a k) : ∃ b, Takes h k bytes a b := by
  cases hr with
  | @inUse before behind b hb hfit =>
    refine ⟨b, rfl, hfit, .inl (List.mem_append_left _ (by simp [hb])), by simp, ?_,
      fun c hc => hc⟩
    intro c hc
    simp only [hb, List.mem_append, List.mem_cons] at hc ⊢
    rcases hc with hc | hc | hc
    · exact .inr (.inl hc)
    · exact .inl hc
    · exact .inr (.inr (.inr hc))
  | @recycled before behind b hnone hb hfit =>
    refine ⟨b, rfl, hfit, .inl (List.mem_append_right _ (by simp [hb])), by simp, ?_, ?_⟩
    · intro c hc
      rcases List.mem_append.1 hc with hc | hc
      · exact .inr hc
      · exact .inl (List.mem_singleton.1 hc)
    · intro c hc
      have hc := (Buckets.closeGap_perm before behind).mem_iff.1 hc
      rw [hb]
      rcases List.mem_append.1 hc with hc | hc
      · exact List.mem_append_left _ hc
      · exact List.mem_append_right _ (List.mem_cons_of_mem _ hc)
  | created hnone hspare hcan =>
    refine ⟨h.newBucket bytes, rfl, le_newCapacity h bytes, .inr rfl, by simp, ?_,
      fun c hc => hc⟩
    intro c hc
    rcases List.mem_append.1 hc with hc | hc
    · exact .inr hc
    · exact .inl (List.mem_singleton.1 hc)

/-- The bytes that were taken are whole words of the bucket. -/
theorem Takes.houses {b : Bucket} (ht : Takes h k bytes a b) (hh : h.Sound away) :
    (b.bump bytes).Houses a bytes := by
  have hwords : b.used % Word.size = 0 := by
    rcases ht.origin with hb | rfl
    · exact (hh.bucket b (List.mem_append_left _ hb)).used_words
    · rfl
  rw [ht.address]
  refine ⟨Nat.le_add_right _ _, ?_, ?_⟩
  · rw [Bucket.start_bump, Bucket.used_bump, Nat.add_assoc]
  · rw [Bucket.start_bump, Nat.add_sub_cancel_left, hwords]

/-- A bucket that is created has the number that comes next, and the numbers of the others
stay. -/
theorem Reserves.numbered (hr : Reserves h bytes a k)
    (hn : ((h.allBuckets ++ away).map Bucket.number).Perm (List.range h.created)) :
    ((k.allBuckets ++ away).map Bucket.number).Perm (List.range k.created) := by
  cases hr with
  | @inUse before behind b hb hfit =>
    simpa [allBuckets, charged, hb, Bucket.bump] using hn
  | @recycled before behind b hnone hb hfit =>
    refine List.Perm.trans ?_ hn
    have hgap := (Buckets.closeGap_perm before behind).map Bucket.number
    simp only [allBuckets, hb, List.map_append, List.map_cons, List.map_nil] at hgap ⊢
    refine List.Perm.append_right _ ?_
    rw [List.append_assoc]
    refine List.Perm.append_left _ ((hgap.append_left _).trans ?_)
    rw [List.singleton_append, Bucket.number_bump]
    exact List.perm_middle.symm
  | created hnone hspare hcan =>
    rw [List.range_succ]
    refine List.Perm.trans ?_ (hn.append_right [h.created])
    simp only [allBuckets, List.map_append, List.map_cons, List.map_nil, List.append_assoc]
    refine List.Perm.append_left _ ?_
    rw [← List.append_assoc _ _ [h.created]]
    exact List.perm_append_comm

theorem Stocked.reserve (hst : h.Stocked away) (hr : Reserves h bytes a k) (hpos : 0 < bytes) :
    k.Stocked away := by
  obtain ⟨b, ht⟩ := hr.takes
  refine ⟨hr.numbered hst.numbered, ?_, fun c hc => hst.spare c (ht.spare c hc)⟩
  intro c hc
  rcases ht.buckets c hc with rfl | hc
  · rw [Bucket.used_bump]
    omega
  · exact hst.used c hc

/-! ## Settling objects -/

theorem Settles.stocked (hs : Settles h id t t' k) (hh : h.Sound away)
    (hst : h.Stocked away) : k.Stocked away := by
  cases hs with
  | vacant ho => exact hst
  | reclaimed ho hm => exact ⟨hst.numbered, hst.used, hst.spare⟩
  | held ho hm hr => exact ⟨hst.numbered, hst.used, hst.spare⟩
  | @moved o a l ho hm hr hres =>
    have hset : (h.setObject id { o with marked := false }).Stocked away :=
      ⟨hst.numbered, hst.used, hst.spare⟩
    have hl := hset.reserve hres (hh.object ho).footprint_pos
    exact ⟨hl.numbered, hl.used, hl.spare⟩

theorem SettlesAll.stocked (hs : SettlesAll h ids t t' k) (hh : h.Sound away)
    (hsup : Buckets.Supplied (k.allBuckets ++ away)) (hst : h.Stocked away) :
    k.Stocked away := by
  induction hs with
  | nil h t => exact hst
  | cons head rest ih =>
    have hk := head.sound hh (rest.extends.supplied hsup)
    exact ih hk hsup (head.stocked hh hst)

/-- Every bucket in use houses an object, and one that is not settled yet will be held
where it is. -/
def Occupied (h : Heap) (rest : List Nat) : Prop :=
  ∀ b ∈ h.buckets, ∃ id o, h.object? id = some o ∧ b.Houses o.address o.footprint ∧
    (id ∈ rest → o.marked = true ∧ o.isRetained = true)

/-- A decision leaves no bucket in use without an object. -/
theorem Settles.occupied (hs : Settles h id t t' k) (hid : id ∉ ids) (hh : h.Sound away)
    (hocc : h.Occupied (id :: ids)) : k.Occupied ids := by
  -- an object that is not the one decided about goes on occupying its bucket
  have hother : ∀ {b : Bucket} {j : Nat} {p : Object}, h.object? j = some p →
      b.Houses p.address p.footprint → (j ∈ id :: ids → p.marked = true ∧ p.isRetained = true) →
      j ≠ id → ∃ i o, k.object? i = some o ∧ b.Houses o.address o.footprint ∧
        (i ∈ ids → o.marked = true ∧ o.isRetained = true) := by
    intro b j p hp hin hrest hj
    exact ⟨j, p, (hs.object?_of_ne hj).trans hp, hin, fun hmem =>
      hrest (List.mem_cons_of_mem _ hmem)⟩
  intro b hb
  cases hs with
  | vacant ho =>
    obtain ⟨j, p, hp, hin, hrest⟩ := hocc b hb
    refine hother hp hin hrest ?_
    rintro rfl
    rw [ho] at hp
    cases hp
  | reclaimed ho hm =>
    obtain ⟨j, p, hp, hin, hrest⟩ := hocc b hb
    refine hother hp hin hrest ?_
    rintro rfl
    rw [ho] at hp
    cases hp
    rw [hm] at hrest
    exact absurd (hrest List.mem_cons_self).1 Bool.false_ne_true
  | @held o ho hm hr =>
    obtain ⟨j, p, hp, hin, hrest⟩ := hocc b hb
    by_cases hj : j = id
    · subst hj
      rw [ho] at hp
      cases hp
      exact ⟨j, _, (object?_setObject (object?_lt ho) _ j).trans (if_pos rfl), hin, fun hmem =>
        absurd hmem hid⟩
    · exact hother hp hin hrest hj
  | @moved o a l ho hm hr hres =>
    obtain ⟨c, ht⟩ := hres.takes
    rcases ht.buckets b hb with rfl | hb
    · -- the bucket that took the bytes houses the object that has moved
      have hset : (h.setObject id { o with marked := false }).Sound away :=
        hh.congr (.setObject ho rfl) rfl rfl rfl rfl
      have hlt : id < l.objects.length := by
        simpa [hres.objects, Heap.setObject] using object?_lt ho
      exact ⟨id, _, (object?_relocate hlt _ a id).trans (if_pos rfl), ht.houses hset, fun hmem =>
        absurd hmem hid⟩
    · obtain ⟨j, p, hp, hin, hrest⟩ := hocc b hb
      refine hother hp hin hrest ?_
      rintro rfl
      rw [ho] at hp
      cases hp
      rw [hr] at hrest
      exact absurd (hrest List.mem_cons_self).2 Bool.false_ne_true

theorem SettlesAll.occupied (hs : SettlesAll h ids t t' k) (hn : ids.Nodup) (hh : h.Sound away)
    (hsup : Buckets.Supplied (k.allBuckets ++ away)) (hocc : h.Occupied ids) :
    k.Occupied [] := by
  induction hs with
  | nil h t => exact hocc
  | cons head rest ih =>
    obtain ⟨hid, hn⟩ := List.nodup_cons.1 hn
    have hk := head.sound hh (rest.extends.supplied hsup)
    exact ih hn hk hsup (head.occupied hid hh hocc)

/-! ## A collection -/

theorem Stocked.prepare (hst : h.Stocked []) : h.prepare.Stocked h.unpinnedBuckets where
  numbered := ((perm_prepare h).map _).trans hst.numbered
  used b hb := hst.used b (List.mem_of_mem_filter hb)
  spare := hst.spare

theorem Stocked.retire {bs : List Bucket} (hst : h.Stocked bs) : (h.retire bs).Stocked [] where
  numbered := by
    have hmap : ((h.retire bs).allBuckets ++ []).map Bucket.number =
        (h.allBuckets ++ bs).map Bucket.number := by
      simp [allBuckets, Heap.retire, Function.comp_def]
    rw [hmap]
    exact hst.numbered
  used := hst.used
  spare := by
    intro b hb
    rcases List.mem_append.1 hb with hb | hb
    · exact hst.spare b hb
    · obtain ⟨c, -, rfl⟩ := List.mem_map.1 hb
      rfl

theorem Swept.stocked (hk : Swept h k) (hh : h.Sound []) (hsup : k.Supplied)
    (hst : h.Stocked []) : k.Stocked [] := by
  obtain ⟨t, l, hset, rfl⟩ := hk
  exact (hset.stocked hh.prepare (supplied_retire hsup.blocks) hst.prepare).retire

/-- A bucket in use that has the address of an object among its bytes houses the object. -/
theorem Settled.houses_of_contains (hh : h.Settled) (hsup : h.Supplied) {o : Object}
    (ho : h.object? id = some o) {b : Bucket} (hb : b ∈ h.buckets)
    (hin : b.contains o.address = true) : b.Houses o.address o.footprint := by
  obtain ⟨c, hc, hhouse⟩ := hh.housed ho
  by_cases hbc : b = c
  · exact hbc ▸ hhouse
  · have hapart : h.buckets.Pairwise Bucket.Apart := (List.pairwise_append.1 hsup.blocks.apart).1
    have hne : b.Apart c := hapart.forall hb hc hbc
    have hused := (hh.bucket_sound (List.mem_append_left _ hc)).used_le
    have hpos := (hh.sound.object ho).footprint_pos
    obtain ⟨h1, h2⟩ := Bucket.contains_iff.1 hin
    obtain ⟨h3, h4, -⟩ := hhouse
    simp only [Bucket.Apart, Bucket.stop] at hne
    omega

/-- A bucket in use is pinned by a retained object that it houses. -/
theorem Settled.pins_iff (hh : h.Settled) (hsup : h.Supplied) {b : Bucket} (hb : b ∈ h.buckets) :
    h.pins b = true ↔
      ∃ id o, h.object? id = some o ∧ o.isRetained = true ∧ b.Houses o.address o.footprint := by
  constructor
  · intro hp
    obtain ⟨o, hmem, hboth⟩ := List.any_eq_true.1 hp
    obtain ⟨hr, hin⟩ := Bool.and_eq_true_iff.1 hboth
    obtain ⟨id, ho⟩ := exists_of_mem_existing hmem
    exact ⟨id, o, ho, hr, hh.houses_of_contains hsup ho hb hin⟩
  · rintro ⟨id, o, ho, hr, hin⟩
    exact pins_of_houses ho hr hin (hh.sound.object ho).footprint_pos
      (hh.bucket_sound (List.mem_append_left _ hb))

/-- When a collection starts, the buckets in use are those that a retained object keeps. -/
theorem Settled.occupied_prepare (hh : h.Settled) (hsup : h.Supplied) (ids : List Nat) :
    h.prepare.Occupied ids := by
  intro b hb
  obtain ⟨hb, hp⟩ := List.mem_filter.1 hb
  obtain ⟨id, o, ho, hr, hin⟩ := (hh.pins_iff hsup hb).1 hp
  have hs := o.site_markIfLive
  simp only [Object.site, Prod.mk.injEq] at hs
  refine ⟨id, o.markIfLive, by rw [object?_prepare, ho, Option.map_some], ?_, fun _ => ⟨?_, ?_⟩⟩
  · rw [hs.1, hs.2.2]
    exact hin
  · rw [Object.marked_markIfLive (hh.unmarked ho), Object.isLive, hr, Bool.or_true]
  · rw [Object.isRetained_markIfLive, hr]

/-- What a collection does to the buckets that were in use: one that keeps no retained object
becomes spare, and one that stays in use holds an object that has survived. -/
structure Cleared (h k : Heap) : Prop where
  emptied : ∀ b ∈ h.buckets,
    (∀ id o, h.object? id = some o → b.Holds o → o.isRetained = false) → b.reset ∈ k.spare
  occupied : ∀ b ∈ k.buckets,
    ∃ id o p, h.object? id = some o ∧ o.isLive = true ∧ k.object? id = some p ∧ b.Holds p

theorem Swept.cleared (hk : Swept h k) (hh : h.Settled) (hsup : h.Supplied)
    (hafter : k.Supplied) : Cleared h k where
  emptied := by
    obtain ⟨t, l, hset, rfl⟩ := hk
    intro b hb hnone
    refine List.mem_append_right _ (List.mem_map_of_mem ?_)
    rcases mem_pinnedBuckets_or hb with hp | hp
    · obtain ⟨id, o, ho, hr, hin⟩ := (hh.pins_iff hsup hb).1 (List.mem_filter.1 hp).2
      rw [hnone id o ho hin.holds] at hr
      cases hr
    · exact hp
  occupied := by
    have hout := hk.outlives hh hafter.blocks
    obtain ⟨t, l, hset, rfl⟩ := hk
    have hocc := hset.occupied List.nodup_range hh.sound.prepare (supplied_retire hafter.blocks)
      (hh.occupied_prepare hsup _)
    intro b hb
    obtain ⟨id, p, hp, hin, -⟩ := hocc b hb
    have hp : (l.retire h.unpinnedBuckets).object? id = some p := hp
    cases hout id with
    | vacant before after =>
      rw [after] at hp
      cases hp
    | reclaimed before dead after =>
      rw [after] at hp
      cases hp
    | kept before live after content place => exact ⟨id, _, p, before, live, hp, hin.holds⟩

end PinnedHeap.Heap
