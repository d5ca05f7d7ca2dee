import PinnedHeap.Proofs.Heap.Report

/-!
# Evacuation

A collection moves objects one after the other, to storage from the ordinary
allocator, while what it has not come to yet still lies where it was. Nothing
is lost because of where that storage can be: in buckets that are kept, behind
what they hold (`Grown`), in spare ones and in new ones. So a destination is
nobody's, not even storage that was given up in the same collection: `Room`
says where it lies, and `Room.beside` that nothing was there.
-/

namespace PinnedHeap

namespace Bucket

theorem bump_bump (b : Bucket) (m n : Nat) : (b.bump m).bump n = b.bump (m + n) := by
  rw [bump, bump, bump, Nat.add_assoc]

end Bucket

namespace Heap

variable {placement : Nat → Nat} {config : Config} {h k l m : Heap} {away : List Bucket}
  {r : Report} {id a n : Nat} {o : Object} {ids past rest : List Nat} {t t' u : Tally}
  {ns : List Notice}

/-! ## Runs of decisions, taken apart -/

theorem SettlesAll.object?_of_notMem (hs : SettlesAll h ids t t' k) {j : Nat} (hj : j ∉ ids) :
    k.object? j = h.object? j := by
  induction hs with
  | nil h t => rfl
  | cons head rest ih =>
    rw [List.mem_cons, not_or] at hj
    exact (ih hj.2).trans (head.object?_of_ne hj.1)

/-- The decision about one of the objects, what came before it and what came after. -/
theorem SettlesAll.of_mem (hs : SettlesAll h ids t t' k) (hn : ids.Nodup) (hid : id ∈ ids) :
    ∃ past rest u u' m m', ids = past ++ id :: rest ∧ id ∉ past ∧ id ∉ rest ∧
      SettlesAll h past t u m ∧ Settles m id u u' m' ∧ SettlesAll m' rest u' t' k := by
  induction hs with
  | nil h t => cases hid
  | @cons h m k j ids t u v head tail ih =>
    obtain ⟨hj, hn⟩ := List.nodup_cons.1 hn
    by_cases heq : id = j
    · subst heq
      exact ⟨[], ids, t, u, h, m, rfl, List.not_mem_nil, hj, .nil h t, head, tail⟩
    · obtain ⟨past, rest, w, w', x, x', rfl, hpast, hrest, hs, hat, hs'⟩ :=
        ih hn ((List.mem_cons.1 hid).resolve_left heq)
      exact ⟨j :: past, rest, w, w', x, x', rfl, by simp [heq, hpast], hrest, .cons head hs, hat,
        hs'⟩

/-! ## Where storage is found -/

/-- A bucket from which a collection of `h` takes storage. -/
def Lends (h : Heap) (b : Bucket) : Prop :=
  b ∈ h.pinnedBuckets ∨ b ∈ h.spare ∨ h.created ≤ b.number

/-- While a collection of `h` goes on, its buckets in use are filled up from where they
were. -/
structure Grown (h m : Heap) : Prop where
  created : h.created ≤ m.created
  inUse : ∀ b ∈ m.buckets, ∃ c n, b = c.bump n ∧ h.Lends c
  spare : ∀ b ∈ m.spare, b ∈ h.spare

namespace Grown

theorem prepare (h : Heap) : Grown h h.prepare where
  created := Nat.le_refl _
  inUse b hb := ⟨b, 0, rfl, .inl hb⟩
  spare _ hb := hb

/-- Whichever bucket takes the bytes, it lends them. -/
theorem lends (hg : Grown h m) {b : Bucket} (ht : Takes m k n a b) :
    ∃ c i, b = c.bump i ∧ h.Lends c := by
  rcases ht.origin with hb | rfl
  · rcases List.mem_append.1 hb with hb | hb
    · exact hg.inUse b hb
    · exact ⟨b, 0, rfl, .inr (.inl (hg.spare b hb))⟩
  · exact ⟨m.newBucket n, 0, rfl, .inr (.inr hg.created)⟩

theorem reserve (hg : Grown h m) (hr : Reserves m n a k) : Grown h k := by
  obtain ⟨b, ht⟩ := hr.takes
  refine ⟨?_, ?_, fun c hc => hg.spare c (ht.spare c hc)⟩
  · have hle := hg.created
    cases hr with
    | inUse hb hfit => exact hle
    | recycled hnone hb hfit => exact hle
    | created hnone hspare hcan => exact Nat.le_succ_of_le hle
  · intro c hc
    rcases ht.buckets c hc with rfl | hc
    · obtain ⟨d, i, rfl, hd⟩ := hg.lends ht
      exact ⟨d, i + n, d.bump_bump i n, hd⟩
    · exact hg.inUse c hc

theorem settles (hg : Grown h m) (hs : Settles m id t t' k) : Grown h k := by
  cases hs with
  | vacant ho => exact hg
  | reclaimed ho hm => exact ⟨hg.created, hg.inUse, hg.spare⟩
  | held ho hm hr => exact ⟨hg.created, hg.inUse, hg.spare⟩
  | @moved o a l ho hm hr hres =>
    have hset : Grown h (m.setObject id { o with marked := false }) :=
      ⟨hg.created, hg.inUse, hg.spare⟩
    have hl := hset.reserve hres
    exact ⟨hl.created, hl.inUse, hl.spare⟩

theorem settlesAll (hg : Grown h m) (hs : SettlesAll m ids t t' k) : Grown h k := by
  induction hs with
  | nil m t => exact hg
  | cons head rest ih => exact ih (hg.settles head)

end Grown

/-- The `n` bytes from `a` on were in no use before the collection that turned `h` into `k`:
they are in a bucket that was kept, behind the cursor, or in one that was spare, or in one
that is new. -/
inductive Room (h k : Heap) (a n : Nat) : Prop where
  | tail {b : Bucket} (hb : b ∈ h.buckets) (keeps : h.Keeps b) (start : b.start + b.used ≤ a)
      (stop : a + n ≤ b.stop)
  | spare {b : Bucket} (hb : b ∈ h.spare) (start : b.start ≤ a) (stop : a + n ≤ b.stop)
  | new {b : Bucket} (hb : b ∈ k.allBuckets) (number : h.created ≤ b.number)
      (start : b.start ≤ a) (stop : a + n ≤ b.stop)

/-- Nothing lies there: no bucket that was in use reaches so far, but for the unused part of
one that was kept. -/
theorem Room.beside (hroom : Room h k a n) (hsup : h.Supplied) (hst : h.Stocked [])
    (hext : Extends h k) (hafter : k.Supplied) {c : Bucket}
    (hc : c ∈ h.buckets) :
    (h.Keeps c ∧ c.start + c.used ≤ a) ∨ c.stop ≤ a ∨ a + n ≤ c.start := by
  have happ := List.pairwise_append.1 hsup.blocks.apart
  cases hroom with
  | @tail b hb keeps start stop =>
    by_cases hbc : b = c
    · exact .inl (hbc ▸ ⟨keeps, start⟩)
    · have hapart : b.Apart c := happ.1.forall hb hc hbc
      simp only [Bucket.Apart, Bucket.stop] at hapart stop ⊢
      omega
  | @spare b hb start stop =>
    have hapart : c.Apart b := happ.2.2 c hc b hb
    simp only [Bucket.Apart, Bucket.stop] at hapart stop ⊢
    omega
  | @new b hb number start stop =>
    -- the bucket was created before the collection, and it is still there
    have hold : c.number < h.created := by
      have hmem := hst.numbered.subset
        (List.mem_map_of_mem (List.mem_append_left [] (List.mem_append_left h.spare hc)))
      exact List.mem_range.1 hmem
    obtain ⟨d, hd, heq⟩ := List.mem_map.1
      (hext.blocks.subset (List.mem_map_of_mem (List.mem_append_left h.spare hc)))
    have hnumber : d.number = c.number := by rw [← d.number_reset, heq, c.number_reset]
    have hstart : d.start = c.start := by rw [← d.start_reset, heq, c.start_reset]
    have hstop : d.stop = c.stop := by rw [← d.stop_reset, heq, c.stop_reset]
    have hne : b ≠ d := by
      rintro rfl
      omega
    have hapart : b.Apart d := hafter.blocks.apart.forall hb hd hne
    rw [Bucket.Apart, hstart, hstop] at hapart
    omega

/-! ## What is written -/

/-- Bytes to which nothing is moved stay. -/
theorem SettlesAll.byteAt (hs : SettlesAll h ids t t' k) (hn : ids.Nodup) {x : Nat}
    (hout : ∀ id ∈ ids, ∀ o p, h.object? id = some o → k.object? id = some p →
      o.marked = true → o.isRetained = false →
      x < p.address ∨ p.address + p.footprint ≤ x) :
    k.memory.byteAt x = h.memory.byteAt x := by
  induction hs with
  | nil h t => rfl
  | @cons h m k id ids t u v head rest ih =>
    obtain ⟨hid, hn⟩ := List.nodup_cons.1 hn
    have hrest : k.memory.byteAt x = m.memory.byteAt x := by
      apply ih hn
      intro j hj o p ho
      rw [head.object?_of_ne fun heq => hid (heq ▸ hj)] at ho
      exact hout j (List.mem_cons_of_mem _ hj) o p ho
    rw [hrest]
    cases head with
    | vacant ho => rfl
    | reclaimed ho hm => rfl
    | held ho hm hr => rfl
    | @moved o a l ho hm hr hres =>
      have hlt : id < l.objects.length := by
        simpa [hres.objects, Heap.setObject] using object?_lt ho
      have hafter := (rest.object?_of_notMem hid).trans
        ((object?_relocate hlt _ a id).trans (if_pos rfl))
      have hx := hout id List.mem_cons_self o _ ho hafter hm hr
      rw [relocate, Memory.byteAt_copy, if_neg, hres.memory]
      · rfl
      · rintro ⟨hle, hlt⟩
        exact hx.elim (Nat.not_lt.2 hle) (Nat.not_le.2 hlt)

/-! ## What is moved -/

/-- The collection that turned `h` into `k` has moved the object to `a`. -/
structure Moves (h k : Heap) (id : Nat) (o : Object) (a : Nat) : Prop where
  before : h.object? id = some o
  rooted : o.rooted = true
  unretained : o.retains = 0
  after : k.object? id = some { o with address := a }

/-- A collection of `h` has settled every object, which leaves `l`; the buckets that were
set apart are still to be made spare. -/
structure Evacuates (h : Heap) (t : Tally) (l : Heap) : Prop where
  settled : h.Settled
  supplied : h.Supplied
  stocked : h.Stocked []
  settles : SettlesAll h.prepare (List.range h.objects.length) {} t l
  after : (l.retire h.unpinnedBuckets).Supplied

namespace Evacuates

theorem swept (he : Evacuates h t l) : Swept h (l.retire h.unpinnedBuckets) :=
  ⟨t, l, he.settles, rfl⟩

/-- What is marked and not retained is moved. -/
theorem moves (he : Evacuates h t l) {p q : Object} (hp : h.prepare.object? id = some p)
    (hmark : p.marked = true) (hr : p.isRetained = false) (hq : l.object? id = some q) :
    ∃ o, Moves h l id o q.address ∧ q.footprint = o.footprint := by
  rw [object?_prepare] at hp
  obtain ⟨o, ho, rfl⟩ := Option.map_eq_some_iff.1 hp
  rw [Object.marked_markIfLive (he.settled.unmarked ho)] at hmark
  rw [o.isRetained_markIfLive] at hr
  have hzero : o.retains = 0 := by
    rw [Object.isRetained, decide_eq_false_iff_not] at hr
    omega
  have hroot : o.rooted = true := by
    rw [Object.isLive, hr, Bool.or_false] at hmark
    exact hmark
  have hq' : (l.retire h.unpinnedBuckets).object? id = some q := hq
  cases he.swept.outlives he.settled he.after.blocks id with
  | vacant before after =>
    rw [ho] at before
    cases before
  | reclaimed before dead after =>
    rw [after] at hq'
    cases hq'
  | kept before live after content place =>
    rw [ho] at before
    cases before
    rw [after] at hq'
    cases hq'
    exact ⟨o, ⟨ho, hroot, hzero, hq⟩, rfl⟩

/-- How an object was moved: some were decided about before it, then storage was reserved
and the bytes were copied, and the others came later. -/
theorem split (he : Evacuates h t l) (hm : Moves h l id o a) :
    ∃ past rest u u' m k, List.range h.objects.length = past ++ id :: rest ∧ id ∉ rest ∧
      SettlesAll h.prepare past {} u m ∧ Reserves (m.setObject id o) o.footprint a k ∧
      Settles m id u u' (k.relocate id o a) ∧ SettlesAll (k.relocate id o a) rest u' t l := by
  have hid : id ∈ List.range h.objects.length := List.mem_range.2 (object?_lt hm.before)
  obtain ⟨past, rest, u, u', m, m', hids, hpast, hrest, hbefore, hat, hafter⟩ :=
    he.settles.of_mem List.nodup_range hid
  have hlive : o.markIfLive = { o with marked := true } := by
    rw [Object.markIfLive, if_pos (Object.isLive_iff.2 (.inl hm.rooted))]
  have hobj : m.object? id = some { o with marked := true } := by
    rw [hbefore.object?_of_notMem hpast, object?_prepare, hm.before, Option.map_some, hlive]
  have hend : m'.object? id = some { o with address := a } :=
    (hafter.object?_of_notMem hrest).symm.trans hm.after
  have hunmarked : ({ o with marked := false } : Object) = o := by
    rw [← he.settled.unmarked hm.before]
  cases hat with
  | vacant ho =>
    rw [hobj] at ho
    cases ho
  | reclaimed ho hmark =>
    rw [hobj] at ho
    cases ho
    cases hmark
  | held ho hmark hr =>
    rw [hobj] at ho
    cases ho
    rw [Object.isRetained_eq_not, hm.unretained] at hr
    cases hr
  | @moved p b k ho hmark hr hres =>
    have hlt : id < k.objects.length := by
      simpa [hres.objects, Heap.setObject] using object?_lt ho
    rw [object?_relocate hlt, if_pos rfl] at hend
    have hset := Settles.moved (t := u) ho hmark hr hres
    rw [hobj] at ho
    cases ho
    have hb : b = a := congrArg Object.address (Option.some.inj hend)
    subst hb
    simp only [hunmarked] at hres hset hafter
    exact ⟨past, rest, u, _, m, k, hids, hrest, hbefore, hres, hset, hafter⟩

theorem room (he : Evacuates h t l) (hm : Moves h l id o a) :
    Room h (l.retire h.unpinnedBuckets) a o.footprint := by
  obtain ⟨past, rest, u, u', m, k, -, -, hbefore, hres, -, hafter⟩ := he.split hm
  have hgrown : Grown h (m.setObject id o) := by
    have hm := (Grown.prepare h).settlesAll hbefore
    exact ⟨hm.created, hm.inUse, hm.spare⟩
  obtain ⟨b, ht⟩ := hres.takes
  obtain ⟨c, i, rfl, hlends⟩ := hgrown.lends ht
  have hstart : a = c.start + (c.used + i) := ht.address
  have hstop : a + o.footprint ≤ c.stop := by
    have hfits : o.footprint ≤ c.capacity - (c.used + i) := ht.fits
    have hpos := (he.settled.sound.object hm.before).footprint_pos
    rw [Bucket.stop]
    omega
  rcases hlends with hc | hc | hc
  · obtain ⟨hb, hp⟩ := List.mem_filter.1 hc
    exact .tail hb ((he.settled.pins_iff_keeps he.supplied hb).1 hp) (by omega) hstop
  · exact .spare hc (by omega) hstop
  · -- the new bucket is still there when the collection is over
    have htaken : (c.bump i).bump o.footprint ∈ (k.relocate id o a).allBuckets :=
      List.mem_append_left _ ht.taken
    obtain ⟨d, hd, heq⟩ := List.mem_map.1
      (hafter.extends.blocks.subset (List.mem_map_of_mem htaken))
    rw [Bucket.reset_bump, Bucket.reset_bump] at heq
    have hmem : d ∈ (l.retire h.unpinnedBuckets).allBuckets := by
      rcases List.mem_append.1 hd with hd | hd
      · exact List.mem_append_left _ hd
      · exact List.mem_append_right _ (List.mem_append_left _ hd)
    refine .new hmem ?_ ?_ ?_
    · rw [← d.number_reset, heq, c.number_reset]
      exact hc
    · rw [← d.start_reset, heq, c.start_reset]
      omega
    · rw [← d.stop_reset, heq, c.stop_reset]
      exact hstop

theorem beside (he : Evacuates h t l) (hm : Moves h l id o a) {c : Bucket}
    (hc : c ∈ h.buckets) :
    (h.Keeps c ∧ c.start + c.used ≤ a) ∨ c.stop ≤ a ∨ a + o.footprint ≤ c.start :=
  (he.room hm).beside he.supplied he.stocked he.swept.extends he.after hc

/-- No object was where one is moved to, and neither was the object itself. -/
theorem avoids (he : Evacuates h t l) (hm : Moves h l id o a) {j : Nat} {p : Object}
    (hp : h.object? j = some p) : p.Avoids a o.footprint := by
  obtain ⟨c, hc, hin⟩ := he.settled.housed hp
  have hle := hin.start_le
  have hge := hin.stop_le
  have hused := (he.settled.bucket_sound (List.mem_append_left _ hc)).used_le
  have hbeside := he.beside hm hc
  simp only [Object.Avoids, Bucket.stop] at hbeside ⊢
  omega

/-- No two objects are moved to the same place. -/
theorem apart (he : Evacuates h t l) {j b : Nat} {p : Object} (hm : Moves h l id o a)
    (hm' : Moves h l j p b) (hij : id ≠ j) : a + o.footprint ≤ b ∨ b + p.footprint ≤ a :=
  (he.swept.settled he.settled he.after.blocks).sound.apart hm.after hm'.after hij

/-- Bytes to which nothing is moved are at no time other than they were. -/
theorem byteAt (he : Evacuates h t l) (hpast : SettlesAll h.prepare past {} u m)
    (hrest : SettlesAll m rest u t l) (hids : List.range h.objects.length = past ++ rest) {x : Nat}
    (hout : ∀ {id o a}, Moves h l id o a → x < a ∨ a + o.footprint ≤ x) :
    m.memory.byteAt x = h.memory.byteAt x := by
  have hn : (past ++ rest).Nodup := hids ▸ List.nodup_range
  obtain ⟨hn, -, hdisj⟩ := List.nodup_append.1 hn
  refine (hpast.byteAt hn ?_).trans rfl
  intro id hid p q hp hq hmark hr
  have hrest := hrest.object?_of_notMem fun hmem => hdisj id hid id hmem rfl
  obtain ⟨o, hm, hfoot⟩ := he.moves hp hmark hr (hrest.trans hq)
  rw [hfoot]
  exact hout hm

/-- What is moved takes all of its storage along. -/
theorem copied (he : Evacuates h t l) (hm : Moves h l id o a) :
    l.memory.read a o.footprint = h.memory.read o.address o.footprint := by
  obtain ⟨past, rest, u, u', m, k, hids, hid, hbefore, hres, hset, hafter⟩ := he.split hm
  have hn : (id :: rest).Nodup := (List.nodup_append.1 (hids ▸ List.nodup_range)).2.1
  have hsound := (he.swept.settled he.settled he.after.blocks).sound
  calc l.memory.read a o.footprint
      = (k.relocate id o a).memory.read a o.footprint := by
        -- what is moved later is moved elsewhere
        apply Memory.read_congr
        intro x hle hlt
        apply hafter.byteAt (List.nodup_cons.1 hn).2
        intro j hj p q hp hq hmark hr
        have hne : id ≠ j := fun heq => hid (heq ▸ hj)
        have happ : a + o.footprint ≤ q.address ∨ q.address + q.footprint ≤ a :=
          hsound.apart hm.after hq hne
        omega
    _ = m.memory.read o.address o.footprint := by
        rw [relocate, Memory.read_copy_self (Nat.le_refl _), hres.memory]
        rfl
    _ = h.memory.read o.address o.footprint := by
        -- what was moved before was not moved here
        apply Memory.read_congr
        intro x hle hlt
        apply he.byteAt hbefore (.cons hset hafter) hids
        intro j p b hm'
        have havoid := he.avoids hm' hm.before
        simp only [Object.Avoids] at havoid
        omega

end Evacuates

/-! ## Whole collections -/

/-- The collection that turned `h` into `k` has overwritten nothing. -/
structure Evacuation (h k : Heap) : Prop where
  /-- What is moved goes to where nothing was in use. -/
  room : ∀ id o a, Moves h k id o a → Room h k a o.footprint
  /-- No object was there, be it retained, dead, still to be moved or the one that is moved. -/
  avoids : ∀ id o a, Moves h k id o a → ∀ j p, h.object? j = some p → p.Avoids a o.footprint
  apart : ∀ i j o p a b, Moves h k i o a → Moves h k j p b → i ≠ j →
    a + o.footprint ≤ b ∨ b + p.footprint ≤ a
  /-- Other bytes are not written, neither in the end nor on the way. -/
  written : ∀ x, (∀ id o a, Moves h k id o a → x < a ∨ a + o.footprint ≤ x) →
    k.memory.byteAt x = h.memory.byteAt x ∧
    ∀ past, past <+: List.range h.objects.length →
      ((settleAll past {}).run h.prepare).state.memory.byteAt x = h.memory.byteAt x
  used : ∀ b ∈ h.buckets, ∀ x, b.start ≤ x → x < b.start + b.used →
    k.memory.byteAt x = h.memory.byteAt x
  emptied : ∀ b ∈ h.buckets, ¬ h.Keeps b → ∀ x, b.start ≤ x → x < b.stop →
    k.memory.byteAt x = h.memory.byteAt x
  copied : ∀ id o a, Moves h k id o a →
    k.memory.read a o.footprint = h.memory.read o.address o.footprint
  leaves : ∀ id o a, Moves h k id o a → a ≠ o.address

theorem Completes.evacuation (hc : Completes h r k) (hh : h.Settled) (hsup : h.Supplied)
    (hafter : k.Supplied) (hst : h.Stocked []) : Evacuation h k := by
  cases hc with
  | @intro t l ns hrun hset hcan =>
    have he : Evacuates h t l := ⟨hh, hsup, hst, hset, ⟨hafter.blocks, hafter.owned_lt⟩⟩
    -- raising the target and sorting the buckets moves nothing
    have hmoves : ∀ {id o a}, Moves h (l.retire h.unpinnedBuckets).raised id o a →
        Moves h l id o a := fun hm => ⟨hm.before, hm.rooted, hm.unretained, hm.after⟩
    have hmoves' : ∀ {id o a}, Moves h l id o a →
        Moves h (l.retire h.unpinnedBuckets).raised id o a :=
      fun hm => ⟨hm.before, hm.rooted, hm.unretained, hm.after⟩
    have hend : ∀ x, (∀ {id o a}, Moves h l id o a → x < a ∨ a + o.footprint ≤ x) →
        l.memory.byteAt x = h.memory.byteAt x :=
      fun x hout => he.byteAt hset (.nil l t) (List.append_nil _).symm hout
    constructor
    · intro id o a hm
      cases he.room (hmoves hm) with
      | tail hb keeps start stop => exact .tail hb keeps start stop
      | spare hb start stop => exact .spare hb start stop
      | new hb number start stop => exact .new hb number start stop
    · intro id o a hm j p hp
      exact he.avoids (hmoves hm) hp
    · intro i j o p a b hm hm' hij
      exact he.apart (hmoves hm) (hmoves hm') hij
    · intro x hout
      have hout' : ∀ {id o a}, Moves h l id o a → x < a ∨ a + o.footprint ≤ x :=
        fun hm => hout _ _ _ (hmoves' hm)
      refine ⟨hend x hout', ?_⟩
      rintro past ⟨rest, hids⟩
      rw [← hids] at hrun
      obtain ⟨u, m, ms, hpast, hbefore, hbehind⟩ :=
        settlesAll_append_of_run hh.sound.prepare.worded hrun
      rw [hpast]
      exact he.byteAt hbefore hbehind hids.symm hout'
    · intro b hb x hle hlt
      refine hend x fun hm => ?_
      have hused := (hh.bucket_sound (List.mem_append_left _ hb)).used_le
      have hbeside := he.beside hm hb
      simp only [Bucket.stop] at hbeside
      omega
    · intro b hb hnot x hle hlt
      refine hend x fun hm => ?_
      rcases he.beside hm hb with ⟨hkeeps, -⟩ | hbeside
      · exact absurd hkeeps hnot
      · omega
    · intro id o a hm
      exact he.copied (hmoves hm)
    · rintro id o a hm rfl
      have havoid := he.avoids (hmoves hm) hm.before
      have hpos := (hh.sound.object hm.before).footprint_pos
      simp only [Object.Avoids] at havoid
      omega

/-- A collection that is completed overwrites nothing, whatever was asked of the heap before
and whichever calls have broken off. -/
theorem Reached.collection_overwrites_nothing (hr : Reached placement config h) {c : Call}
    (hafter : (c.run.run h).state.Supplied)
    (hans : (c.run.run h).answer = .ok (.report (some r))) :
    Evacuation h (c.run.run h).state := by
  obtain ⟨-, hcomp⟩ := completes_of_report hr.settled hr.supplied hafter hans
  exact hcomp.evacuation hr.settled hr.supplied hafter hr.stocked

/-- Two objects are moved: one out of a bucket that is given up, to a new one, and one inside
the bucket that a retained object keeps. -/
theorem crowded_collection_overwrites_nothing :
    ∃ h k, Reached (spaced 0x10000 0x10000) ⟨64, 64, 2, false⟩ h ∧
      k = (Call.collect.run.run h).state ∧
      [2, 3].map (fun id => (h.object? id).map Object.address) = [some 0x20040, some 0x10008] ∧
      [2, 3].map (fun id => (k.object? id).map Object.address) = [some 0x30000, some 0x10018] ∧
      Evacuation h k := by
  have hrun : ((create (spaced 0x10000 0x10000) ⟨64, 64, 2, false⟩).calls?
      [.allocate 8, .retain 0x10000, .allocate 64, .allocate 448, .unroot 1, .allocate 16]).map
      (fun h => (decide (Call.collect.run.run h).state.Supplied,
        (Call.collect.run.run h).answer.toOption,
        [2, 3].map (fun id => (h.object? id).map Object.address),
        [2, 3].map (fun id => ((Call.collect.run.run h).state.object? id).map Object.address))) =
      some (true, some (.report (some ⟨2, 1, 1, 1, 536, 472⟩)), [some 0x20040, some 0x10008],
        [some 0x30000, some 0x10018]) := by
    decide +kernel
  obtain ⟨h, hcalls, heq⟩ := Option.map_eq_some_iff.1 hrun
  simp only [Prod.mk.injEq, decide_eq_true_eq] at heq
  obtain ⟨hsup, hanswer, hbefore, hafter⟩ := heq
  have hr := Reached.create.of_calls? hcalls
  exact ⟨h, _, hr, rfl, hbefore, hafter,
    hr.collection_overwrites_nothing hsup (answer_of_toOption hanswer)⟩

end Heap

end PinnedHeap
