import Mathlib.Algebra.BigOperators.Group.List.Basic
import Mathlib.Algebra.GroupWithZero.Nat
import Mathlib.Data.List.Pairwise
import Mathlib.Data.List.Perm.Subperm
import PinnedHeap.Heap.Placement

/-!
# The supply of buckets

What a heap relies on when it asks for the memory of a new bucket: that it
gets a block of its own, aligned at words, neither at address zero nor up to
the last address. A heap that is `Supplied` has been given such blocks, and
less than `ample` bytes of them.

The supply only grows: `Heap.Extends` says that every bucket of the one heap
is a bucket of the other, whatever part of it may be in use.
-/

namespace PinnedHeap

namespace Bucket

/-- No byte belongs to both buckets. -/
def Apart (b c : Bucket) : Prop := b.stop ≤ c.start ∨ c.stop ≤ b.start

instance (b c : Bucket) : Decidable (b.Apart c) := inferInstanceAs (Decidable (_ ∨ _))

/-- The bucket with `bytes` bytes more in use. -/
def bump (b : Bucket) (bytes : Nat) : Bucket := { b with used := b.used + bytes }

/-- A bucket as it is kept: whole words, and the cursor inside. -/
structure Sound (b : Bucket) : Prop where
  used_le : b.used ≤ b.capacity
  used_words : b.used % Word.size = 0
  capacity_words : b.capacity % Word.size = 0
  capacity_pos : 0 < b.capacity
  capacity_le : b.capacity ≤ Word.largestBlock

theorem Apart.symm {b c : Bucket} (h : b.Apart c) : c.Apart b := Or.symm h

instance : Std.Symm Apart := ⟨fun _ _ h => h.symm⟩

@[simp] theorem number_bump (b : Bucket) (n : Nat) : (b.bump n).number = b.number := rfl

@[simp] theorem number_reset (b : Bucket) : b.reset.number = b.number := rfl

@[simp] theorem start_bump (b : Bucket) (n : Nat) : (b.bump n).start = b.start := rfl

@[simp] theorem used_bump (b : Bucket) (n : Nat) : (b.bump n).used = b.used + n := rfl

@[simp] theorem capacity_bump (b : Bucket) (n : Nat) : (b.bump n).capacity = b.capacity := rfl

@[simp] theorem reset_bump (b : Bucket) (n : Nat) : (b.bump n).reset = b.reset := rfl

@[simp] theorem start_reset (b : Bucket) : b.reset.start = b.start := rfl

@[simp] theorem stop_reset (b : Bucket) : b.reset.stop = b.stop := rfl

@[simp] theorem capacity_reset (b : Bucket) : b.reset.capacity = b.capacity := rfl

/-- Whole words that are left can be had. -/
theorem allocate_of_fits {b : Bucket} {n : Nat} (hw : n % Word.size = 0) (hfit : n ≤ b.free) :
    b.allocate n = .ok (b.start + b.used, b.bump n) :=
  allocate_eq_ok.2 ⟨hw, hfit, rfl, rfl⟩

theorem apart_reset {b c : Bucket} : b.reset.Apart c.reset ↔ b.Apart c := Iff.rfl

theorem Sound.bump {b : Bucket} (h : b.Sound) {n : Nat} (hn : n % Word.size = 0)
    (hfit : n ≤ b.free) : (b.bump n).Sound where
  used_le := by
    have := h.used_le
    simp only [free] at hfit
    simp only [used_bump, capacity_bump]
    omega
  used_words := by
    have := h.used_words
    simp only [Word.size, used_bump] at *
    omega
  capacity_words := h.capacity_words
  capacity_pos := h.capacity_pos
  capacity_le := h.capacity_le

theorem Sound.reset {b : Bucket} (h : b.Sound) : b.reset.Sound where
  used_le := Nat.zero_le _
  used_words := rfl
  capacity_words := h.capacity_words
  capacity_pos := h.capacity_pos
  capacity_le := h.capacity_le

end Bucket

namespace Buckets

/-- Blocks of memory as they are handed out. -/
structure Supplied (bs : List Bucket) : Prop where
  aligned : ∀ b ∈ bs, b.start % Word.size = 0
  start_pos : ∀ b ∈ bs, 0 < b.start
  stop_lt : ∀ b ∈ bs, b.stop < Word.limit
  apart : bs.Pairwise Bucket.Apart

instance (bs : List Bucket) : Decidable (Supplied bs) :=
  decidable_of_iff ((∀ b ∈ bs, b.start % Word.size = 0) ∧ (∀ b ∈ bs, 0 < b.start) ∧
      (∀ b ∈ bs, b.stop < Word.limit) ∧ bs.Pairwise Bucket.Apart)
    ⟨fun ⟨h1, h2, h3, h4⟩ => ⟨h1, h2, h3, h4⟩, fun h => ⟨h.aligned, h.start_pos, h.stop_lt, h.apart⟩⟩

/-- Bytes in all of the buckets. -/
def total (bs : List Bucket) : Nat := (bs.map Bucket.capacity).sum

@[simp] theorem total_cons (b : Bucket) (bs : List Bucket) :
    total (b :: bs) = b.capacity + total bs := by simp [total]

@[simp] theorem total_append (bs cs : List Bucket) : total (bs ++ cs) = total bs + total cs := by
  simp [total]

theorem total_perm {bs cs : List Bucket} (h : bs.Perm cs) : total bs = total cs :=
  (h.map _).sum_eq

@[simp] theorem total_reset (bs : List Bucket) : total (bs.map Bucket.reset) = total bs := by
  simp [total, Function.comp_def]

/-- How much of the buckets is in use is nothing to the supply. -/
theorem supplied_reset {bs : List Bucket} :
    Supplied (bs.map Bucket.reset) ↔ Supplied bs := by
  constructor
  · intro h
    refine ⟨?_, ?_, ?_, ?_⟩
    · intro b hb
      exact h.aligned b.reset (List.mem_map_of_mem hb)
    · intro b hb
      exact h.start_pos b.reset (List.mem_map_of_mem hb)
    · intro b hb
      exact h.stop_lt b.reset (List.mem_map_of_mem hb)
    · exact (List.pairwise_map.1 h.apart).imp Bucket.apart_reset.1
  · intro h
    refine ⟨?_, ?_, ?_, List.pairwise_map.2 (h.apart.imp Bucket.apart_reset.2)⟩
    · simpa using h.aligned
    · simpa using h.start_pos
    · simpa using h.stop_lt

theorem Supplied.subperm {bs cs : List Bucket} (h : Supplied cs) (hsub : bs.Subperm cs) :
    Supplied bs := by
  refine ⟨fun b hb => h.aligned b (hsub.subset hb), fun b hb => h.start_pos b (hsub.subset hb),
    fun b hb => h.stop_lt b (hsub.subset hb), ?_⟩
  obtain ⟨ds, hperm, hds⟩ := hsub
  exact (hperm.pairwise_iff Bucket.Apart.symm).1 (h.apart.sublist hds)

/-- A supply that covers other buckets covers these, however much of them is in use. -/
theorem Supplied.covers {bs cs : List Bucket} (h : Supplied cs)
    (hsub : (bs.map Bucket.reset).Subperm (cs.map Bucket.reset)) : Supplied bs :=
  supplied_reset.1 ((supplied_reset.2 h).subperm hsub)

end Buckets

namespace Heap

/-- So many bytes are never handed out. -/
def ample : Nat := 0x1000000000000000

/-- The heap has been given blocks of its own, and not more than there can be. -/
structure Supplied (h : Heap) : Prop where
  blocks : Buckets.Supplied h.allBuckets
  owned_lt : h.owned < ample

instance (h : Heap) : Decidable h.Supplied :=
  decidable_of_iff (Buckets.Supplied h.allBuckets ∧ h.owned < ample)
    ⟨fun ⟨h1, h2⟩ => ⟨h1, h2⟩, fun h => ⟨h.blocks, h.owned_lt⟩⟩

/-- Every bucket of the heap is a bucket of the other one. -/
structure Extends (h k : Heap) : Prop where
  blocks : (h.allBuckets.map Bucket.reset).Subperm (k.allBuckets.map Bucket.reset)
  owned_le : h.owned ≤ k.owned

namespace Extends

theorem refl (h : Heap) : Extends h h := ⟨List.Subperm.refl _, Nat.le_refl _⟩

theorem trans {h k l : Heap} (hk : Extends h k) (kl : Extends k l) : Extends h l :=
  ⟨hk.blocks.trans kl.blocks, Nat.le_trans hk.owned_le kl.owned_le⟩

theorem of_eq {h k : Heap} (hb : k.buckets = h.buckets) (hs : k.spare = h.spare)
    (ho : k.owned = h.owned) : Extends h k := by
  refine ⟨?_, Nat.le_of_eq ho.symm⟩
  simp only [allBuckets, hb, hs]
  exact List.Subperm.refl _

/-- The supply of the larger heap covers the smaller one, beside what else there is. -/
theorem supplied {h k : Heap} {away : List Bucket} (hk : Extends h k)
    (hs : Buckets.Supplied (k.allBuckets ++ away)) :
    Buckets.Supplied (h.allBuckets ++ away) := by
  apply hs.covers
  rw [List.map_append, List.map_append]
  exact (List.subperm_append_right _).2 hk.blocks

end Extends

end Heap

end PinnedHeap
