import Mathlib.Data.List.Nodup
import PinnedHeap.Proofs.Heap.Lookup
import PinnedHeap.Proofs.Placement.Placements
import PinnedHeap.Proofs.Placement.Readdress

/-!
# Heaps that are alike

Two heaps are alike if the one is the other with all buckets at other places:
`Placements.image` says what that makes of buckets and objects, and what the heap
does not have in order of its buckets, memory and index, agrees byte by byte and
entry by entry.

`Placements.Tidy` is what the one heap has to satisfy for that: its buckets are the
blocks, every object lies in a block, and an entry of the index leads to the object
that it names. It takes no notice of which buckets are in use, and so holds also of
a heap whose collection was broken off halfway.
-/

namespace PinnedHeap.Heap.Placements

/-- The bucket is one of the blocks. -/
structure Lies (w : Placements) (b : Bucket) : Prop where
  size : w.sizes[b.number]? = some b.capacity
  start : b.start = w.here b.number
  used_le : b.used ≤ b.capacity

/-- The object lies in a block. -/
structure Lodges (w : Placements) (o : Object) : Prop where
  spans : w.Spans o.address o.footprint
  len_pos : 0 < o.len
  len_le : o.len ≤ o.footprint
  words : o.footprint % Word.size = 0

/-- Buckets, objects and index are as the placements say. -/
structure Tidy (w : Placements) (h : Heap) : Prop where
  placement : h.placement = w.here
  buckets : ∀ b ∈ h.allBuckets, w.Lies b
  objects : ∀ id o, h.object? id = some o → w.Lodges o
  sorted : h.index.Sorted
  indexed : ∀ e ∈ h.index.entries, ∃ o, h.object? e.2 = some o ∧ o.address = e.1
  vacant : ∀ id ∈ h.vacant, id < h.objects.length ∧ h.object? id = none
  nodup : h.vacant.Nodup

/-- The blocks hold the same bytes. -/
def SameBytes (w : Placements) (m m' : Memory) : Prop :=
  ∀ a, w.Spans a 1 → m'.byteAt (w.carry a) = m.byteAt a

/-- The entries are the same, but for the addresses. -/
structure SameIndex (w : Placements) (x y : AddressIndex) : Prop where
  sorted : y.Sorted
  mem_iff : ∀ e, e ∈ y.entries ↔ ∃ d ∈ x.entries, e = (w.carry d.1, d.2)

/-- The heap with all buckets at the other places, with this memory and this index. -/
def image (w : Placements) (h : Heap) (m : Memory) (x : AddressIndex) : Heap :=
  { h with
    placement := w.there
    memory := m
    buckets := h.buckets.map (Bucket.readdress w.carry)
    spare := h.spare.map (Bucket.readdress w.carry)
    objects := h.objects.map (Option.map (Object.readdress w.carry))
    index := x }

/-- The heaps are the same but for where their buckets lie. -/
inductive Alike (w : Placements) (h : Heap) : Heap → Prop where
  | intro {m : Memory} {x : AddressIndex} (tidy : w.Tidy h) (bytes : w.SameBytes h.memory m)
      (index : w.SameIndex h.index x) : Alike w h (w.image h m x)

variable {w : Placements} {h k : Heap} {m m' : Memory} {x y : AddressIndex} {id a n : Nat}
  {o p : Object} {b : Bucket}

/-! ## Memory -/

theorem Lodges.spans_len (ho : w.Lodges o) : w.Spans o.address o.len := ho.spans.mono ho.len_le

theorem Lodges.known (ho : w.Lodges o) : w.Known o.address := ho.spans.known

/-- A byte of a range in a block. -/
theorem Spans.byte {k : Nat} (ha : w.Spans a n) (hk : k < n) : w.Spans (a + k) 1 :=
  (ha.add (Nat.le_of_lt hk)).mono (by omega)

theorem SameBytes.read (hm : w.SameBytes m m') (ha : w.Spans a n) :
    m'.read (w.carry a) n = m.read a n := by
  simp only [Memory.read, List.map_inj_left, List.mem_range]
  intro i hi
  rw [← ha.carry_add (Nat.le_of_lt hi)]
  exact hm _ (ha.byte hi)

/-- The byte at an address that is in a range, and the one that corresponds to it. -/
theorem Spans.offset (ha : w.Spans a n) {e : Nat} (hae : a ≤ e) (hen : e < a + n) :
    ∃ k < n, e = a + k ∧ w.carry e = w.carry a + k := by
  obtain ⟨k, rfl⟩ := Nat.exists_eq_add_of_le hae
  exact ⟨k, by omega, rfl, ha.carry_add (by omega)⟩

theorem SameBytes.write {bytes : List UInt8} (hm : w.SameBytes m m')
    (ha : w.Spans a bytes.length) :
    w.SameBytes (m.write a bytes) (m'.write (w.carry a) bytes) := by
  intro e he
  have hcover := carry_covers ha he.known
  by_cases hin : a ≤ e ∧ e < a + bytes.length
  · obtain ⟨k, hk, rfl, hke⟩ := ha.offset hin.1 hin.2
    rw [hke, Memory.byteAt_write_of_inside hk, Memory.byteAt_write_of_inside hk]
  · have hout := mt hcover.1 hin
    rw [Memory.byteAt_write_of_outside (by omega), Memory.byteAt_write_of_outside (by omega)]
    exact hm e he

theorem SameBytes.clear (hm : w.SameBytes m m') (ha : w.Spans a n) :
    w.SameBytes (m.clear a n) (m'.clear (w.carry a) n) := by
  intro e he
  have hcover := carry_covers ha he.known
  rw [Memory.byteAt_clear, Memory.byteAt_clear]
  by_cases hin : a ≤ e ∧ e < a + n
  · rw [if_pos hin, if_pos (hcover.2 hin)]
  · rw [if_neg hin, if_neg (mt hcover.1 hin)]
    exact hm e he

theorem SameBytes.copy {source : Nat} (hm : w.SameBytes m m') (hs : w.Spans source n)
    (ha : w.Spans a n) :
    w.SameBytes (m.copy source a n) (m'.copy (w.carry source) (w.carry a) n) := by
  intro e he
  have hcover := carry_covers ha he.known
  rw [Memory.byteAt_copy, Memory.byteAt_copy]
  by_cases hin : a ≤ e ∧ e < a + n
  · rw [if_pos hin, if_pos (hcover.2 hin)]
    obtain ⟨k, hk, rfl, hke⟩ := ha.offset hin.1 hin.2
    rw [hke, Nat.add_sub_cancel_left, Nat.add_sub_cancel_left, ← hs.carry_add (Nat.le_of_lt hk)]
    exact hm _ (hs.byte hk)
  · rw [if_neg hin, if_neg (mt hcover.1 hin)]
    exact hm e he

/-! ## Index -/

/-- There is one entry under an address. -/
theorem eq_of_address_eq (hx : x.Sorted) {d e : Nat × Nat} (hd : d ∈ x.entries)
    (he : e ∈ x.entries) (hde : d.1 = e.1) : d = e := by
  obtain ⟨i, hi, rfl⟩ := List.mem_iff_getElem.1 hd
  obtain ⟨j, hj, rfl⟩ := List.mem_iff_getElem.1 he
  have hpair := List.pairwise_iff_getElem.1 hx
  rcases Nat.lt_trichotomy i j with hlt | rfl | hlt
  · exact absurd hde (Nat.ne_of_lt (hpair i j hi hj hlt))
  · rfl
  · exact absurd hde.symm (Nat.ne_of_lt (hpair j i hj hi hlt))

theorem SameIndex.perm (hx : x.Sorted) (hxy : w.SameIndex x y)
    (hknown : ∀ d ∈ x.entries, w.Known d.1) :
    y.entries.Perm (x.entries.map fun d => (w.carry d.1, d.2)) := by
  have hnodup {z : AddressIndex} (hz : z.Sorted) : z.entries.Nodup :=
    hz.imp fun hlt heq => Nat.ne_of_lt hlt (congrArg Prod.fst heq)
  have hinj : ∀ d ∈ x.entries, ∀ e ∈ x.entries,
      (w.carry d.1, d.2) = (w.carry e.1, e.2) → d = e := by
    intro d hd e he heq
    obtain ⟨haddr, hid⟩ := Prod.mk.inj heq
    exact Prod.ext ((carry_inj (hknown d hd) (hknown e he)).1 haddr) hid
  rw [List.perm_ext_iff_of_nodup (hnodup hxy.sorted) ((hnodup hx).map_on hinj)]
  intro e
  rw [hxy.mem_iff, List.mem_map]
  exact exists_congr fun d => and_congr_right fun _ => eq_comm

theorem SameIndex.insert (hx : x.Sorted) (hxy : w.SameIndex x y)
    (hknown : ∀ d ∈ x.entries, w.Known d.1) (ha : w.Known a) (id : Nat) :
    w.SameIndex (x.insert a id) (y.insert (w.carry a) id) := by
  refine ⟨hxy.sorted.insert _ _, fun e => ?_⟩
  rw [AddressIndex.mem_insert hxy.sorted, hxy.mem_iff]
  constructor
  · rintro (rfl | ⟨⟨d, hd, rfl⟩, hne⟩)
    · exact ⟨(a, id), (AddressIndex.mem_insert hx).2 (.inl rfl), rfl⟩
    · have hne' : d.1 ≠ a := fun heq => hne (congrArg w.carry heq)
      exact ⟨d, (AddressIndex.mem_insert hx).2 (.inr ⟨hd, hne'⟩), rfl⟩
  · rintro ⟨d, hd, rfl⟩
    rcases (AddressIndex.mem_insert hx).1 hd with rfl | ⟨hd, hne⟩
    · exact .inl rfl
    · exact .inr ⟨⟨d, hd, rfl⟩, fun heq => hne ((carry_inj (hknown d hd) ha).1 heq)⟩

theorem SameIndex.erase (hxy : w.SameIndex x y) (hknown : ∀ d ∈ x.entries, w.Known d.1)
    (ha : w.Known a) : w.SameIndex (x.erase a) (y.erase (w.carry a)) := by
  refine ⟨hxy.sorted.erase _, fun e => ?_⟩
  rw [AddressIndex.mem_erase, hxy.mem_iff]
  constructor
  · rintro ⟨⟨d, hd, rfl⟩, hne⟩
    have hne' : d.1 ≠ a := fun heq => hne (congrArg w.carry heq)
    exact ⟨d, AddressIndex.mem_erase.2 ⟨hd, hne'⟩, rfl⟩
  · rintro ⟨d, hd, rfl⟩
    obtain ⟨hd, hne⟩ := AddressIndex.mem_erase.1 hd
    exact ⟨⟨d, hd, rfl⟩, fun heq => hne ((carry_inj (hknown d hd) ha).1 heq)⟩

theorem Tidy.known (ht : w.Tidy h) : ∀ e ∈ h.index.entries, w.Known e.1 := by
  intro e he
  obtain ⟨o, ho, haddr⟩ := ht.indexed e he
  exact haddr ▸ (ht.objects _ o ho).known

/-! ## Objects -/

@[simp] theorem object?_image (id : Nat) :
    (w.image h m x).object? id = (h.object? id).map (Object.readdress w.carry) := by
  simp only [object?, image, List.getElem?_map]
  cases h.objects[id]? with
  | none => rfl
  | some slot => cases slot <;> rfl

theorem existing_image : (w.image h m x).existing = h.existing.map (Object.readdress w.carry) := by
  simp only [existing, image, List.filterMap_map, List.map_filterMap]
  refine List.filterMap_congr fun slot _ => ?_
  cases slot <;> rfl

theorem length_buckets_image : (w.image h m x).buckets.length = h.buckets.length :=
  List.length_map _

theorem length_spare_image : (w.image h m x).spare.length = h.spare.length :=
  List.length_map _

theorem setObject_image (id : Nat) (o : Object) :
    (w.image h m x).setObject id (o.readdress w.carry) = w.image (h.setObject id o) m x := by
  simp only [setObject, image, List.map_set]
  rfl

/-- What a heap holds besides buckets, objects and index is nothing to its being tidy. -/
theorem Tidy.congr (ht : w.Tidy h) (hp : k.placement = h.placement)
    (hb : ∀ b ∈ k.allBuckets, w.Lies b) (ho : k.objects = h.objects) (hi : k.index = h.index)
    (hv : k.vacant = h.vacant) : w.Tidy k where
  placement := hp.trans ht.placement
  buckets := hb
  objects id o hid := ht.objects id o (by simpa only [object?, ho] using hid)
  sorted := hi ▸ ht.sorted
  indexed e he := by simpa only [object?, ho] using ht.indexed e (hi ▸ he)
  vacant id hid := by simpa only [object?, ho] using ht.vacant id (hv ▸ hid)
  nodup := hv ▸ ht.nodup

theorem Tidy.setObject (ht : w.Tidy h) (ho : h.object? id = some o) (hp : w.Lodges p)
    (hsame : p.address = o.address) : w.Tidy (h.setObject id p) where
  placement := ht.placement
  buckets := ht.buckets
  objects j q hq := by
    rw [object?_setObject (object?_lt ho)] at hq
    split at hq
    · cases hq
      exact hp
    · exact ht.objects j q hq
  sorted := ht.sorted
  indexed e he := by
    obtain ⟨q, hq, haddr⟩ := ht.indexed e he
    rw [object?_setObject (object?_lt ho)]
    split
    · next heq =>
      rw [heq, ho] at hq
      cases hq
      exact ⟨p, rfl, hsame.trans haddr⟩
    · exact ⟨q, hq, haddr⟩
  vacant j hj := by
    obtain ⟨hlt, hnone⟩ := ht.vacant j hj
    refine ⟨by simpa [Heap.setObject] using hlt, ?_⟩
    rw [object?_setObject (object?_lt ho), if_neg, hnone]
    rintro rfl
    simp [hnone] at ho
  nodup := ht.nodup

theorem Tidy.reclaim (ht : w.Tidy h) (ho : h.object? id = some o) : w.Tidy (h.reclaim id o) where
  placement := ht.placement
  buckets := ht.buckets
  objects j q hq := by
    rw [object?_reclaim (object?_lt ho)] at hq
    split at hq
    · cases hq
    · exact ht.objects j q hq
  sorted := ht.sorted.erase _
  indexed e he := by
    obtain ⟨he, hne⟩ := AddressIndex.mem_erase.1 he
    obtain ⟨q, hq, haddr⟩ := ht.indexed e he
    rw [object?_reclaim (object?_lt ho), if_neg]
    · exact ⟨q, hq, haddr⟩
    · intro heq
      rw [heq, ho] at hq
      cases hq
      exact hne haddr.symm
  vacant j hj := by
    rw [object?_reclaim (object?_lt ho)]
    rcases List.mem_cons.1 hj with rfl | hj
    · exact ⟨by simpa [Heap.reclaim] using object?_lt ho, if_pos rfl⟩
    · obtain ⟨hlt, hnone⟩ := ht.vacant j hj
      refine ⟨by simpa [Heap.reclaim] using hlt, ?_⟩
      split
      · rfl
      · exact hnone
  nodup := by
    refine List.nodup_cons.2 ⟨fun hmem => ?_, ht.nodup⟩
    simp [(ht.vacant id hmem).2] at ho

/-- The old entries of the object are gone, and its new one leads to it. -/
theorem Tidy.relocate (ht : w.Tidy h) (ho : h.object? id = some o) (ha : w.Spans a o.footprint) :
    w.Tidy (h.relocate id o a) where
  placement := ht.placement
  buckets := ht.buckets
  objects j q hq := by
    rw [object?_relocate (object?_lt ho)] at hq
    split at hq
    · cases hq
      have hold := ht.objects id o ho
      exact ⟨ha, hold.len_pos, hold.len_le, hold.words⟩
    · exact ht.objects j q hq
  sorted := (ht.sorted.erase _).insert _ _
  indexed e he := by
    rw [object?_relocate (object?_lt ho)]
    rcases (AddressIndex.mem_insert (ht.sorted.erase _)).1 he with rfl | ⟨he, -⟩
    · exact ⟨_, if_pos rfl, rfl⟩
    · obtain ⟨he, hne⟩ := AddressIndex.mem_erase.1 he
      obtain ⟨q, hq, haddr⟩ := ht.indexed e he
      rw [if_neg]
      · exact ⟨q, hq, haddr⟩
      · intro heq
        rw [heq, ho] at hq
        cases hq
        exact hne haddr.symm
  vacant j hj := by
    obtain ⟨hlt, hnone⟩ := ht.vacant j hj
    refine ⟨by simpa [Heap.relocate, Heap.setObject] using hlt, ?_⟩
    rw [object?_relocate (object?_lt ho), if_neg, hnone]
    rintro rfl
    simp [hnone] at ho
  nodup := ht.nodup

/-! ## The search by an address -/

/-- The object is the last one at or before the address, and has it among its bytes. -/
def Finds (h : Heap) (a id : Nat) : Prop :=
  ∃ o, h.object? id = some o ∧ (o.address, id) ∈ h.index.entries ∧ o.Covers a ∧
    ∀ e ∈ h.index.entries, e.1 ≤ a → e.1 ≤ o.address

/-- The search answers, and with what it is to find. -/
theorem find?_of_indexed (hsorted : h.index.Sorted)
    (hindexed : ∀ e ∈ h.index.entries, ∃ o, h.object? e.2 = some o ∧ o.address = e.1)
    (hstop : ∀ id o, h.object? id = some o → o.address + o.len < Word.limit) (a : Nat) :
    ∃ r, h.find? a = .ok r ∧ ∀ id, r = some id ↔ Finds h a id := by
  cases hf : h.index.floor? a with
  | none =>
    refine ⟨none, by simp only [find?, hf], fun id => ⟨nofun, ?_⟩⟩
    rintro ⟨o, -, hmem, hcov, -⟩
    have := AddressIndex.floor?_eq_none hsorted hf _ hmem
    exact absurd hcov.1 (by omega)
  | some e =>
    obtain ⟨start, j⟩ := e
    obtain ⟨hmem, hle, hlast⟩ := AddressIndex.floor?_eq_some hsorted hf
    obtain ⟨o, ho, rfl⟩ := hindexed _ hmem
    have hcontains : o.contains a = .ok (decide (o.Covers a)) :=
      Object.contains_eq_ok (hstop j o ho)
    have hrun : h.find? a = .ok (if o.Covers a then some j else none) := by
      simp only [find?, hf, object_eq_ok ho, bind, Except.bind, hcontains, decide_eq_true_eq]
      rfl
    refine ⟨_, hrun, fun id => ?_⟩
    constructor
    · intro hid
      split at hid
      · next hcov =>
        cases hid
        exact ⟨o, ho, hmem, hcov, hlast⟩
      · cases hid
    · rintro ⟨p, hp, hpmem, hpcov, hplast⟩
      -- both are the last entry at or before the address
      have h1 := hplast _ hmem hle
      have h2 := hlast _ hpmem hpcov.1
      have haddr : p.address = o.address := Nat.le_antisymm (hlast _ hpmem hpcov.1) h1
      have hsame := eq_of_address_eq hsorted hpmem hmem haddr
      obtain rfl : id = j := congrArg Prod.snd hsame
      obtain rfl : p = o := Option.some.inj (hp.symm.trans ho)
      rw [if_pos hpcov]

theorem finds_image (ht : w.Tidy h) (hx : w.SameIndex h.index x) (ha : w.Known a) :
    Finds (w.image h m x) (w.carry a) id ↔ Finds h a id := by
  have hentry {o : Object} (ho : h.object? id = some o) :
      (w.carry o.address, id) ∈ x.entries ↔ (o.address, id) ∈ h.index.entries := by
    rw [hx.mem_iff]
    constructor
    · rintro ⟨⟨e, j⟩, he, heq⟩
      obtain ⟨hcarry, rfl⟩ := Prod.mk.inj heq
      obtain ⟨q, hq, rfl⟩ := ht.indexed _ he
      obtain rfl : q = o := Option.some.inj (hq.symm.trans ho)
      exact he
    · exact fun he => ⟨_, he, rfl⟩
  have hlast {o : Object} (ho : h.object? id = some o) (hcov : o.Covers a) :
      (∀ e ∈ x.entries, e.1 ≤ w.carry a → e.1 ≤ w.carry o.address) ↔
        ∀ e ∈ h.index.entries, e.1 ≤ a → e.1 ≤ o.address := by
    have hiff (e : Nat × Nat) (he : e ∈ h.index.entries) :
        (w.carry e.1 ≤ w.carry a → w.carry e.1 ≤ w.carry o.address) ↔
          (e.1 ≤ a → e.1 ≤ o.address) := by
      obtain ⟨q, hq, haddr⟩ := ht.indexed e he
      have hlodges := ht.objects _ q hq
      exact carry_le_imp (ht.objects id o ho).spans_len hcov.1 hcov.2
        (haddr ▸ hlodges.spans_len) hlodges.len_pos
    constructor
    · exact fun h e he => (hiff e he).1 (h _ ((hx.mem_iff _).2 ⟨e, he, rfl⟩))
    · intro h e he
      obtain ⟨d, hd, rfl⟩ := (hx.mem_iff _).1 he
      exact (hiff d hd).2 (h d hd)
  constructor
  · rintro ⟨o', ho', hmem, hcov, hall⟩
    rw [object?_image] at ho'
    obtain ⟨o, ho, rfl⟩ := Option.map_eq_some_iff.1 ho'
    have hcov := (carry_covers (ht.objects id o ho).spans_len ha).1 hcov
    exact ⟨o, ho, (hentry ho).1 hmem, hcov, (hlast ho hcov).1 hall⟩
  · rintro ⟨o, ho, hmem, hcov, hall⟩
    refine ⟨o.readdress w.carry, by rw [object?_image, ho]; rfl, (hentry ho).2 hmem, ?_,
      (hlast ho hcov).2 hall⟩
    exact (carry_covers (ht.objects id o ho).spans_len ha).2 hcov

/-- The search finds the same object in both heaps, and does not fail. -/
theorem find?_image (ht : w.Tidy h) (hx : w.SameIndex h.index x) (ha : w.Known a) :
    ∃ r, h.find? a = .ok r ∧ (w.image h m x).find? (w.carry a) = .ok r ∧
      ∀ id, r = some id → ∃ o, h.object? id = some o := by
  obtain ⟨r, hr, hiff⟩ := find?_of_indexed ht.sorted ht.indexed (fun id o ho => by
    have := (ht.objects id o ho).spans_len.stop_le
    simp only [Word.limit]
    omega) a
  obtain ⟨r', hr', hiff'⟩ := find?_of_indexed (h := w.image h m x) (a := w.carry a) hx.sorted
    (fun e he => by
      obtain ⟨d, hd, rfl⟩ := (hx.mem_iff e).1 he
      obtain ⟨o, ho, haddr⟩ := ht.indexed d hd
      exact ⟨o.readdress w.carry, by rw [object?_image, ho]; rfl, congrArg w.carry haddr⟩)
    (fun id o' ho' => by
      rw [object?_image] at ho'
      obtain ⟨o, ho, rfl⟩ := Option.map_eq_some_iff.1 ho'
      have := (ht.objects id o ho).spans_len.carry_stop_le
      simp only [Word.limit, Object.address_readdress, Object.len_readdress]
      omega)
  have hsame : r' = r := Option.ext fun id => by
    rw [hiff', hiff, finds_image ht hx ha]
  subst hsame
  refine ⟨r', hr, hr', fun id hid => ?_⟩
  obtain ⟨o, ho, -⟩ := (hiff id).1 hid
  exact ⟨o, ho⟩

end PinnedHeap.Heap.Placements
