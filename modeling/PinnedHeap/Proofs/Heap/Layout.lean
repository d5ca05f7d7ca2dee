import PinnedHeap.Proofs.Heap.History

/-!
# The layout of a heap

Where the objects of a heap lie, told by the buckets: every object has whole
words of its own, in the used part of one bucket that is in use. That is so
after every call, also after one that has broken off halfway.
-/

namespace PinnedHeap

namespace Bucket

/-- The storage of the object is in the used part of the bucket. -/
def Holds (b : Bucket) (o : Object) : Prop :=
  b.start ≤ o.address ∧ o.address + o.footprint ≤ b.start + b.used

theorem Houses.holds {b : Bucket} {o : Object} (h : b.Houses o.address o.footprint) :
    b.Holds o := ⟨h.start_le, h.stop_le⟩

/-- What starts at a word of the bucket starts at a word of memory. -/
theorem Houses.aligned {b : Bucket} {a n : Nat} (h : b.Houses a n)
    (hb : b.start % Word.size = 0) : a % Word.size = 0 := by
  have hle := h.start_le
  have hw := h.words
  simp only [Word.size] at *
  omega

/-- What a bucket holds is outside of every other bucket. -/
theorem Holds.outside {b c : Bucket} {o : Object} (h : b.Holds o) (hb : b.Sound)
    (hbc : b.Apart c) : o.address + o.footprint ≤ c.start ∨ c.stop ≤ o.address := by
  have hused := hb.used_le
  simp only [Holds, Apart, stop] at *
  omega

/-- Two buckets that share no byte do not both hold an object. -/
theorem Holds.not_holds {b c : Bucket} {o : Object} (h : b.Holds o) (hb : b.Sound)
    (hc : c.Sound) (hbc : b.Apart c) (ho : 0 < o.footprint) : ¬ c.Holds o := by
  intro hco
  have hout := h.outside hb hbc
  have hused := hc.used_le
  simp only [Holds, stop] at *
  omega

end Bucket

namespace Heap

variable {placement : Nat → Nat} {config : Config} {h k : Heap}

/-- The bucket in use at this position holds the object. -/
def HousedAt (h : Heap) (o : Object) (i : Nat) : Prop :=
  ∃ b, h.buckets[i]? = some b ∧ b.Holds o

/-- The objects of a heap lie in its buckets as they should. -/
structure LaidOut (h : Heap) : Prop where
  sized : ∀ id o, h.object? id = some o → 0 < o.len ∧ o.footprint = Word.roundUp o.len
  aligned : ∀ id o, h.object? id = some o →
    o.address % Word.size = 0 ∧ (o.address + o.footprint) % Word.size = 0
  housed : ∀ id o, h.object? id = some o → ∃! i, h.HousedAt o i
  apart : ∀ i j o p, h.object? i = some o → h.object? j = some p → i ≠ j →
    o.address + o.footprint ≤ p.address ∨ p.address + p.footprint ≤ o.address
  unspared : ∀ id o, h.object? id = some o →
    ∀ b ∈ h.spare, o.address + o.footprint ≤ b.start ∨ b.stop ≤ o.address
  unmarked : ∀ id o, h.object? id = some o → o.marked = false

theorem Settled.bucket_sound (hh : h.Settled) {b : Bucket} (hb : b ∈ h.allBuckets) : b.Sound :=
  hh.sound.bucket b (List.mem_append_left _ hb)

theorem Settled.housed (hh : h.Settled) {id : Nat} {o : Object} (ho : h.object? id = some o) :
    ∃ b ∈ h.buckets, b.Houses o.address o.footprint := by
  obtain ⟨b, hb, hhouse⟩ := hh.sound.housed ho
  rw [List.append_nil] at hb
  exact ⟨b, hb, hhouse⟩

/-- One bucket in use holds the object, and no other one does. -/
theorem Settled.existsUnique_housedAt (hh : h.Settled) (hs : h.Supplied) {id : Nat} {o : Object}
    (ho : h.object? id = some o) : ∃! i, h.HousedAt o i := by
  have hapart : h.buckets.Pairwise Bucket.Apart := (List.pairwise_append.1 hs.blocks.apart).1
  have hsound : ∀ {i : Nat} {b : Bucket}, h.buckets[i]? = some b → b.Sound := fun hb =>
    hh.bucket_sound (List.mem_append_left _ (List.mem_of_getElem? hb))
  obtain ⟨b, hmem, hhouse⟩ := hh.housed ho
  obtain ⟨i, hb⟩ := List.mem_iff_getElem?.1 hmem
  refine ⟨i, ⟨b, hb, hhouse.holds⟩, ?_⟩
  rintro j ⟨c, hc, hholds⟩
  by_contra hne
  have hbc : b.Apart c := by
    obtain ⟨hi, rfl⟩ := List.getElem?_eq_some_iff.1 hb
    obtain ⟨hj, rfl⟩ := List.getElem?_eq_some_iff.1 hc
    rcases Nat.lt_or_gt_of_ne hne with hlt | hlt
    · exact (List.pairwise_iff_getElem.1 hapart j i hj hi hlt).symm
    · exact List.pairwise_iff_getElem.1 hapart i j hi hj hlt
  exact hhouse.holds.not_holds (hsound hb) (hsound hc) hbc (hh.sound.object ho).footprint_pos
    hholds

/-- A heap that is settled is laid out as it should be. -/
theorem Settled.laidOut (hh : h.Settled) (hs : h.Supplied) : h.LaidOut where
  sized id o ho := ⟨(hh.sound.object ho).len_pos, (hh.sound.object ho).footprint_eq⟩
  aligned id o ho := by
    obtain ⟨b, hb, hhouse⟩ := hh.housed ho
    have ha := hhouse.aligned (hs.blocks.aligned b (List.mem_append_left _ hb))
    refine ⟨ha, ?_⟩
    rw [Nat.add_mod, ha, (hh.sound.object ho).footprint_words]
    rfl
  housed id o ho := hh.existsUnique_housedAt hs ho
  apart i j o p ho hp hij := hh.sound.apart ho hp hij
  unspared id o ho c hc := by
    obtain ⟨b, hb, hhouse⟩ := hh.housed ho
    exact hhouse.holds.outside (hh.bucket_sound (List.mem_append_left _ hb))
      ((List.pairwise_append.1 hs.blocks.apart).2.2 b hb c hc)
  unmarked id o ho := hh.unmarked ho

/-- Every heap with a history is laid out as it should be, whatever was asked of it and
whichever calls have broken off. -/
theorem Reached.objects_laid_out (hr : Reached placement config h) : h.LaidOut :=
  hr.settled.laidOut hr.supplied

/-- Four objects of which one is retained and two are given up, a request that cannot be
met, an unbalanced unretain, a collection, and one more object. -/
def eventful : List Call :=
  [.allocate 5, .allocate 16, .allocate 3, .allocate 40, .retain 0x10012, .unroot 1, .unroot 2,
    .allocate 0x1000000000000000, .unretain 0x10000, .collect, .allocate 9]

theorem eventful_laid_out :
    ∃ h, Reached (spaced 0x10000 0x10000) ⟨64, 64, 2, false⟩ h ∧ h.collections = 1 ∧
      (h.object? 1).map Object.site = some (0x10008, 16, 16) ∧ h.LaidOut := by
  have hrun : ((create (spaced 0x10000 0x10000) ⟨64, 64, 2, false⟩).calls? eventful).map
      (fun h => (h.collections, (h.object? 1).map Object.site)) =
        some (1, some (0x10008, 16, 16)) := by decide +kernel
  obtain ⟨h, hh, heq⟩ := Option.map_eq_some_iff.1 hrun
  obtain ⟨hcollections, hsite⟩ := Prod.mk.inj heq
  have hr := Reached.create.of_calls? hh
  exact ⟨h, hr, hcollections, hsite, Reached.objects_laid_out hr⟩

end Heap

end PinnedHeap
