import PinnedHeap.Heap.Allocate
import PinnedHeap.Heap.Collect
import PinnedHeap.Proofs.Supply

/-!
# The invariant of the heap

`Heap.Sound h away` says where the objects of `h` lie and that the table, the
index and the vacant ids agree about them. The buckets `away` are neither in
use nor spare, but may still hold objects: those that a collection empties.
Between operations there are none, and nothing is marked: that is
`Heap.Settled`.

The invariant does not speak of memory, of flags and retains, or of counters
other than the bytes that are owned, so it passes to every heap with the same
`Sites`. What remains is to see what it takes to give an object up, to move
one and to enter one.
-/

namespace PinnedHeap

namespace Object

/-- Where an object lies and how much of memory is its own. -/
def site (o : Object) : Nat × Nat × Nat := (o.address, o.len, o.footprint)

/-- Is the address one of the bytes of the object? -/
def Covers (o : Object) (a : Nat) : Prop := o.address ≤ a ∧ a < o.address + o.len

instance (o : Object) (a : Nat) : Decidable (o.Covers a) :=
  inferInstanceAs (Decidable (_ ∧ _))

/-- The object shares no byte of storage with the `n` bytes from `a` on. -/
def Avoids (o : Object) (a n : Nat) : Prop := o.address + o.footprint ≤ a ∨ a + n ≤ o.address

/-- The size of an object and of its storage. -/
structure Sound (o : Object) : Prop where
  len_pos : 0 < o.len
  footprint_eq : o.footprint = Word.roundUp o.len

theorem Sound.len_le {o : Object} (h : o.Sound) : o.len ≤ o.footprint :=
  h.footprint_eq ▸ Word.le_roundUp o.len

theorem Sound.footprint_pos {o : Object} (h : o.Sound) : 0 < o.footprint :=
  Nat.lt_of_lt_of_le h.len_pos h.len_le

theorem Sound.footprint_words {o : Object} (h : o.Sound) : o.footprint % Word.size = 0 := by
  rw [h.footprint_eq, Word.roundUp_mod_size]

theorem Sound.of_site {o p : Object} (h : o.Sound) (hs : p.site = o.site) : p.Sound := by
  simp only [site, Prod.mk.injEq] at hs
  obtain ⟨-, hl, hf⟩ := hs
  exact ⟨hl ▸ h.len_pos, by rw [hf, hl, h.footprint_eq]⟩

end Object

namespace Bucket

/-- The `n` bytes from `a` on are whole words in the part of the bucket that is in use. -/
structure Houses (b : Bucket) (a n : Nat) : Prop where
  start_le : b.start ≤ a
  stop_le : a + n ≤ b.start + b.used
  words : (a - b.start) % Word.size = 0

theorem Houses.bump {b : Bucket} {a n : Nat} (h : b.Houses a n) (m : Nat) :
    (b.bump m).Houses a n := by
  refine ⟨h.start_le, ?_, h.words⟩
  have := h.stop_le
  simp only [start_bump, used_bump]
  omega

/-- What lies in different buckets has no byte in common. -/
theorem Houses.avoids {b c : Bucket} {a n a' n' : Nat} (h : b.Houses a n) (h' : c.Houses a' n')
    (hb : b.Sound) (hc : c.Sound) (hbc : b.Apart c) : a + n ≤ a' ∨ a' + n' ≤ a := by
  have hbu := hb.used_le
  have hcu := hc.used_le
  obtain ⟨h1, h2, -⟩ := h
  obtain ⟨h3, h4, -⟩ := h'
  simp only [Apart, stop] at hbc
  omega

end Bucket

namespace Heap

/-! ## The object table -/

theorem object?_lt {h : Heap} {id : Nat} {o : Object} (ho : h.object? id = some o) :
    id < h.objects.length := by
  unfold object? at ho
  by_contra hlt
  rw [List.getElem?_eq_none (by omega)] at ho
  cases ho

theorem join_getElem?_set (l : List (Option Object)) (id j : Nat) (x : Option Object)
    (hid : id < l.length) : (l.set id x)[j]?.join = if j = id then x else l[j]?.join := by
  by_cases hj : j = id
  · subst hj
    simp [hid]
  · rw [List.getElem?_set_ne (Ne.symm hj), if_neg hj]

theorem object?_setObject {h : Heap} {id : Nat} (hid : id < h.objects.length) (o : Object)
    (j : Nat) : (h.setObject id o).object? j = if j = id then some o else h.object? j :=
  join_getElem?_set h.objects id j (some o) hid

theorem object?_reclaim {h : Heap} {id : Nat} (hid : id < h.objects.length) (o : Object)
    (j : Nat) : (h.reclaim id o).object? j = if j = id then none else h.object? j :=
  join_getElem?_set h.objects id j none hid

theorem object?_relocate {h : Heap} {id : Nat} (hid : id < h.objects.length) (o : Object)
    (a j : Nat) :
    (h.relocate id o a).object? j = if j = id then some { o with address := a } else h.object? j :=
  object?_setObject hid _ j

theorem mem_allBuckets_append {h : Heap} {away : List Bucket} {b : Bucket}
    (hb : b ∈ h.buckets ++ away) : b ∈ h.allBuckets ++ away := by
  rcases List.mem_append.1 hb with hb | hb
  · exact List.mem_append_left _ (List.mem_append_left _ hb)
  · exact List.mem_append_right _ hb

/-! ## The invariant -/

/-- Where the objects of a heap lie, and what the heap knows of it. -/
structure Sound (h : Heap) (away : List Bucket) : Prop where
  bucket : ∀ b ∈ h.allBuckets ++ away, b.Sound
  smallest : ∀ b ∈ h.allBuckets ++ away, Word.roundUp h.config.smallestBucket ≤ b.capacity
  owned : h.owned = Buckets.total (h.allBuckets ++ away)
  object : ∀ {id o}, h.object? id = some o → o.Sound
  housed : ∀ {id o}, h.object? id = some o →
    ∃ b ∈ h.buckets ++ away, b.Houses o.address o.footprint
  apart : ∀ {i j o p}, h.object? i = some o → h.object? j = some p → i ≠ j →
    o.Avoids p.address p.footprint
  index_sorted : h.index.Sorted
  index_iff : ∀ {a id}, (a, id) ∈ h.index.entries ↔ ∃ o, h.object? id = some o ∧ o.address = a
  vacant_nodup : h.vacant.Nodup
  vacant_iff : ∀ {id}, id ∈ h.vacant ↔ id < h.objects.length ∧ h.object? id = none

/-- The heap between two operations. -/
structure Settled (h : Heap) : Prop where
  sound : h.Sound []
  unmarked : ∀ {id o}, h.object? id = some o → o.marked = false

/-- The `n` bytes from `a` on are whole words in a bucket in use, and no object's. -/
structure Offers (h : Heap) (a n : Nat) : Prop where
  housed : ∃ b ∈ h.buckets, b.Houses a n
  avoided : ∀ {id o}, h.object? id = some o → o.Avoids a n

/-- Two heaps with the same objects at the same places. -/
structure Sites (h k : Heap) : Prop where
  index : k.index = h.index
  vacant : k.vacant = h.vacant
  length : k.objects.length = h.objects.length
  site : ∀ id, (k.object? id).map Object.site = (h.object? id).map Object.site

variable {h k : Heap} {away away' : List Bucket}

namespace Sites

theorem object? (hs : Sites h k) {id : Nat} {p : Object} (hp : k.object? id = some p) :
    ∃ o, h.object? id = some o ∧ o.site = p.site := by
  have := hs.site id
  rw [hp, Option.map_some] at this
  exact Option.map_eq_some_iff.1 this.symm

theorem object?_eq_none (hs : Sites h k) {id : Nat} :
    k.object? id = none ↔ h.object? id = none := by
  have := hs.site id
  cases hk : k.object? id <;> cases hh : h.object? id <;> simp_all

theorem symm (hs : Sites h k) : Sites k h :=
  ⟨hs.index.symm, hs.vacant.symm, hs.length.symm, fun id => (hs.site id).symm⟩

theorem of_objects (hobj : k.objects = h.objects) (hi : k.index = h.index)
    (hv : k.vacant = h.vacant) : Sites h k :=
  ⟨hi, hv, by rw [hobj], fun id => by simp only [Heap.object?, hobj]⟩

/-- An object may change as long as it keeps its place. -/
theorem setObject {id : Nat} {o p : Object} (ho : h.object? id = some o)
    (hs : p.site = o.site) : Sites h (h.setObject id p) := by
  refine ⟨rfl, rfl, by simp [Heap.setObject], ?_⟩
  intro j
  rw [object?_setObject (object?_lt ho)]
  by_cases hj : j = id
  · subst hj
    rw [if_pos rfl, ho, Option.map_some, Option.map_some, hs]
  · rw [if_neg hj]

end Sites

/-- The invariant passes on with the objects, if the buckets are the same but for how they
are grouped and how much of them is in use, and still house the objects. -/
theorem Sound.transfer (hh : h.Sound away) (hs : Sites h k) (hc : k.config = h.config)
    (ho : k.owned = h.owned)
    (hall : ((k.allBuckets ++ away').map Bucket.reset).Perm
      ((h.allBuckets ++ away).map Bucket.reset))
    (hb : ∀ b ∈ k.allBuckets ++ away', b.Sound)
    (hhoused : ∀ {id o}, k.object? id = some o →
      ∃ b ∈ k.buckets ++ away', b.Houses o.address o.footprint) : k.Sound away' where
  bucket := hb
  smallest := by
    intro b hb
    have hmem := hall.mem_iff.1 (List.mem_map_of_mem hb)
    obtain ⟨c, hc', hcb⟩ := List.mem_map.1 hmem
    have hcap : c.capacity = b.capacity := by
      rw [← Bucket.capacity_reset c, hcb, Bucket.capacity_reset]
    rw [hc, ← hcap]
    exact hh.smallest c hc'
  owned := by
    rw [ho, hh.owned, ← Buckets.total_reset, ← Buckets.total_reset (k.allBuckets ++ away')]
    exact (Buckets.total_perm hall).symm
  object := by
    intro id p hp
    obtain ⟨o, ho, hsite⟩ := hs.object? hp
    exact (hh.object ho).of_site hsite.symm
  housed := hhoused
  apart := by
    intro i j p q hp hq hij
    obtain ⟨o, ho, hsite⟩ := hs.object? hp
    obtain ⟨r, hr, hsite'⟩ := hs.object? hq
    simp only [Object.site, Prod.mk.injEq] at hsite hsite'
    have := hh.apart ho hr hij
    simpa only [Object.Avoids, hsite, hsite'] using this
  index_sorted := hs.index ▸ hh.index_sorted
  index_iff := by
    intro a id
    rw [hs.index, hh.index_iff]
    constructor
    · rintro ⟨o, ho, ha⟩
      obtain ⟨p, hp, hsite⟩ := hs.symm.object? ho
      simp only [Object.site, Prod.mk.injEq] at hsite
      exact ⟨p, hp, hsite.1.trans ha⟩
    · rintro ⟨p, hp, ha⟩
      obtain ⟨o, ho, hsite⟩ := hs.object? hp
      simp only [Object.site, Prod.mk.injEq] at hsite
      exact ⟨o, ho, hsite.1.trans ha⟩
  vacant_nodup := hs.vacant ▸ hh.vacant_nodup
  vacant_iff := by
    intro id
    rw [hs.vacant, hs.length, hs.object?_eq_none, hh.vacant_iff]

theorem Sites.housed (hs : Sites h k) (hh : h.Sound away) {id : Nat} {p : Object}
    (hp : k.object? id = some p) : ∃ b ∈ h.buckets ++ away, b.Houses p.address p.footprint := by
  obtain ⟨o, ho, hsite⟩ := hs.object? hp
  simp only [Object.site, Prod.mk.injEq] at hsite
  rw [← hsite.1, ← hsite.2.2]
  exact hh.housed ho

theorem Sound.congr (hh : h.Sound away) (hs : Sites h k) (hc : k.config = h.config)
    (hb : k.buckets = h.buckets) (hsp : k.spare = h.spare) (ho : k.owned = h.owned) :
    k.Sound away := by
  have hall : k.allBuckets = h.allBuckets := by rw [allBuckets, hb, hsp, allBuckets]
  refine hh.transfer hs hc ho (by rw [hall]) (by rw [hall]; exact hh.bucket) ?_
  intro id p hp
  rw [hb]
  exact hs.housed hh hp

/-- No two objects start at one address. -/
theorem Sound.id_unique (hh : h.Sound away) {i j : Nat} {o p : Object}
    (ho : h.object? i = some o) (hp : h.object? j = some p) (ha : o.address = p.address) :
    i = j := by
  by_contra hij
  have h1 := hh.apart ho hp hij
  have h2 := (hh.object ho).footprint_pos
  have h3 := (hh.object hp).footprint_pos
  simp only [Object.Avoids] at h1
  omega

/-! ## Giving an object up, moving one, entering one -/

theorem Sound.reclaim (hh : h.Sound away) {id : Nat} {o : Object} (ho : h.object? id = some o) :
    (h.reclaim id o).Sound away := by
  have hid := object?_lt ho
  have hobj : ∀ {j p}, (h.reclaim id o).object? j = some p → j ≠ id ∧ h.object? j = some p := by
    intro j p hp
    rw [object?_reclaim hid] at hp
    split at hp
    · cases hp
    · exact ⟨‹_›, hp⟩
  exact {
    bucket := hh.bucket
    smallest := hh.smallest
    owned := hh.owned
    object := fun hp => hh.object (hobj hp).2
    housed := fun hp => hh.housed (hobj hp).2
    apart := fun hp hq hij => hh.apart (hobj hp).2 (hobj hq).2 hij
    index_sorted := hh.index_sorted.erase _
    index_iff := by
      intro a j
      show (a, j) ∈ (h.index.erase o.address).entries ↔ _
      rw [AddressIndex.mem_erase, hh.index_iff, object?_reclaim hid]
      constructor
      · rintro ⟨⟨p, hp, rfl⟩, hne⟩
        have hj : j ≠ id := by
          rintro rfl
          rw [ho] at hp
          cases hp
          exact hne rfl
        exact ⟨p, by rw [if_neg hj, hp], rfl⟩
      · rintro ⟨p, hp, rfl⟩
        obtain ⟨hj, hp⟩ := hobj (by rw [object?_reclaim hid]; exact hp)
        exact ⟨⟨p, hp, rfl⟩, fun ha => hj (hh.id_unique hp ho ha)⟩
    vacant_nodup := by
      refine List.nodup_cons.2 ⟨?_, hh.vacant_nodup⟩
      intro hv
      rw [hh.vacant_iff, ho] at hv
      cases hv.2
    vacant_iff := by
      intro j
      rw [object?_reclaim hid]
      simp only [Heap.reclaim, List.mem_cons, List.length_set, hh.vacant_iff]
      by_cases hj : j = id
      · simp [hj, hid]
      · simp [hj] }

/-- An object may be moved to storage that is on offer. -/
theorem Sound.relocate (hh : h.Sound away) {id a : Nat} {o : Object} (ho : h.object? id = some o)
    (hoff : h.Offers a o.footprint) : (h.relocate id o a).Sound away := by
  have hid := object?_lt ho
  have hobj : ∀ {j p}, (h.relocate id o a).object? j = some p →
      (j = id ∧ p = { o with address := a }) ∨ (j ≠ id ∧ h.object? j = some p) := by
    intro j p hp
    rw [object?_relocate hid] at hp
    split at hp
    · cases hp
      exact .inl ⟨‹_›, rfl⟩
    · exact .inr ⟨‹_›, hp⟩
  have hfree : ∀ {j p}, h.object? j = some p → p.address ≠ a := by
    intro j p hp heq
    have h1 := hoff.avoided hp
    have h2 := (hh.object hp).footprint_pos
    have h3 := (hh.object ho).footprint_pos
    simp only [Object.Avoids] at h1
    omega
  exact {
    bucket := hh.bucket
    smallest := hh.smallest
    owned := hh.owned
    object := by
      intro j p hp
      rcases hobj hp with ⟨rfl, rfl⟩ | ⟨-, hp⟩
      · exact ⟨(hh.object ho).len_pos, (hh.object ho).footprint_eq⟩
      · exact hh.object hp
    housed := by
      intro j p hp
      rcases hobj hp with ⟨rfl, rfl⟩ | ⟨-, hp⟩
      · obtain ⟨b, hb, hhouse⟩ := hoff.housed
        exact ⟨b, List.mem_append_left _ hb, hhouse⟩
      · exact hh.housed hp
    apart := by
      intro i j p q hp hq hij
      rcases hobj hp with ⟨rfl, rfl⟩ | ⟨hi, hp'⟩ <;> rcases hobj hq with ⟨rfl, rfl⟩ | ⟨hj, hq'⟩
      · exact absurd rfl hij
      · exact (hoff.avoided hq').symm
      · exact hoff.avoided hp'
      · exact hh.apart hp' hq' hij
    index_sorted := (hh.index_sorted.erase _).insert _ _
    index_iff := by
      intro b j
      show (b, j) ∈ ((h.index.erase o.address).insert a id).entries ↔ _
      rw [AddressIndex.mem_insert (hh.index_sorted.erase _), AddressIndex.mem_erase, hh.index_iff,
        object?_relocate hid]
      constructor
      · rintro (heq | ⟨⟨⟨p, hp, rfl⟩, hne⟩, -⟩)
        · cases heq
          exact ⟨{ o with address := a }, by rw [if_pos rfl], rfl⟩
        · have hj : j ≠ id := by
            rintro rfl
            rw [ho] at hp
            cases hp
            exact hne rfl
          exact ⟨p, by rw [if_neg hj, hp], rfl⟩
      · rintro ⟨p, hp, rfl⟩
        rcases hobj (by rw [object?_relocate hid]; exact hp) with ⟨rfl, rfl⟩ | ⟨hj, hp⟩
        · exact .inl rfl
        · exact .inr ⟨⟨⟨p, hp, rfl⟩, fun ha => hj (hh.id_unique hp ho ha)⟩, hfree hp⟩
    vacant_nodup := hh.vacant_nodup
    vacant_iff := by
      intro j
      rw [object?_relocate hid]
      simp only [Heap.relocate, Heap.setObject, List.length_set, hh.vacant_iff]
      by_cases hj : j = id
      · simp [hj, ho]
      · simp [hj] }

end Heap

end PinnedHeap
