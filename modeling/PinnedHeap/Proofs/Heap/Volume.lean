import Mathlib.Algebra.BigOperators.Group.Finset.Basic
import Mathlib.Algebra.Order.BigOperators.Group.List
import Mathlib.Algebra.Order.Group.Nat
import Mathlib.Order.Interval.Finset.Nat
import PinnedHeap.Proofs.Heap.Invariant

/-!
# The volume of the objects

Objects that share no byte and lie in front of the cursors of the buckets
cannot have more bytes of storage than are in use in the buckets, and those
are no more than the heap owns: `Sound.volume_le`. A collection that counts
the storage of its objects anew cannot overflow for that reason.
-/

namespace PinnedHeap

namespace Buckets

/-- Bytes in use in all of the buckets. -/
def inUse (bs : List Bucket) : Nat := (bs.map Bucket.used).sum

@[simp] theorem inUse_cons (b : Bucket) (bs : List Bucket) :
    inUse (b :: bs) = b.used + inUse bs := by simp [inUse]

theorem inUse_le_total {bs : List Bucket} (hbs : ∀ b ∈ bs, b.Sound) : inUse bs ≤ total bs :=
  List.sum_le_sum fun b hb => (hbs b hb).used_le

/-- All addresses in front of the cursors of the buckets. -/
def bytes (bs : List Bucket) : Finset Nat :=
  bs.foldr (fun b s => Finset.Ico b.start (b.start + b.used) ∪ s) ∅

theorem mem_bytes {bs : List Bucket} {b : Bucket} (hb : b ∈ bs) {a : Nat} (h1 : b.start ≤ a)
    (h2 : a < b.start + b.used) : a ∈ bytes bs := by
  induction bs with
  | nil => cases hb
  | cons c cs ih =>
    rw [bytes, List.foldr_cons, Finset.mem_union]
    rcases List.mem_cons.1 hb with rfl | hb
    · exact .inl (Finset.mem_Ico.2 ⟨h1, h2⟩)
    · exact .inr (ih hb)

theorem card_bytes_le (bs : List Bucket) : (bytes bs).card ≤ inUse bs := by
  induction bs with
  | nil => exact Nat.le_refl _
  | cons b bs ih =>
    have hunion := Finset.card_union_le (Finset.Ico b.start (b.start + b.used)) (bytes bs)
    rw [Nat.card_Ico] at hunion
    rw [bytes, List.foldr_cons, inUse_cons]
    simp only [bytes] at *
    omega

end Buckets

namespace Heap

variable {h : Heap} {away : List Bucket}

/-- Bytes of storage of the object with an id, if it exists. -/
def footprintAt (h : Heap) (id : Nat) : Nat := (h.object? id).elim 0 Object.footprint

/-- Bytes of storage of the objects with the ids. -/
def volume (h : Heap) (ids : List Nat) : Nat := (ids.map h.footprintAt).sum

/-- The addresses of the storage of an object. -/
def bytesAt (h : Heap) (id : Nat) : Finset Nat :=
  (h.object? id).elim ∅ fun o => Finset.Ico o.address (o.address + o.footprint)

theorem footprintAt_eq {id : Nat} {o : Object} (ho : h.object? id = some o) :
    h.footprintAt id = o.footprint := by
  rw [footprintAt, ho, Option.elim_some]

theorem card_bytesAt (h : Heap) (id : Nat) : (h.bytesAt id).card = h.footprintAt id := by
  unfold bytesAt footprintAt
  cases h.object? id with
  | none => rfl
  | some o => rw [Option.elim_some, Option.elim_some, Nat.card_Ico, Nat.add_sub_cancel_left]

theorem mem_bytesAt {id a : Nat} :
    a ∈ h.bytesAt id ↔
      ∃ o, h.object? id = some o ∧ o.address ≤ a ∧ a < o.address + o.footprint := by
  unfold bytesAt
  cases h.object? id with
  | none => simp
  | some o => simp

theorem Sound.disjoint_bytesAt (hh : h.Sound away) {i j : Nat} (hij : i ≠ j) :
    Disjoint (h.bytesAt i) (h.bytesAt j) := by
  rw [Finset.disjoint_left]
  intro a hi hj
  obtain ⟨o, ho, h1, h2⟩ := mem_bytesAt.1 hi
  obtain ⟨p, hp, h3, h4⟩ := mem_bytesAt.1 hj
  have := hh.apart ho hp hij
  simp only [Object.Avoids] at this
  omega

theorem Sound.bytesAt_subset (hh : h.Sound away) (id : Nat) :
    h.bytesAt id ⊆ Buckets.bytes (h.buckets ++ away) := by
  intro a ha
  obtain ⟨o, ho, h1, h2⟩ := mem_bytesAt.1 ha
  obtain ⟨b, hb, hin⟩ := hh.housed ho
  have h3 := hin.start_le
  have h4 := hin.stop_le
  exact Buckets.mem_bytes hb (by omega) (by omega)

/-- The objects fit into what is in use. -/
theorem Sound.volume_le_inUse (hh : h.Sound away) {ids : List Nat} (hids : ids.Nodup) :
    h.volume ids ≤ Buckets.inUse (h.buckets ++ away) := by
  have hdisj : (ids.toFinset : Set Nat).PairwiseDisjoint h.bytesAt :=
    fun i _ j _ hij => hh.disjoint_bytesAt hij
  calc h.volume ids
      = ∑ id ∈ ids.toFinset, (h.bytesAt id).card := by
        rw [List.sum_toFinset _ hids, volume]
        simp only [card_bytesAt]
    _ = (ids.toFinset.biUnion h.bytesAt).card := (Finset.card_biUnion hdisj).symm
    _ ≤ (Buckets.bytes (h.buckets ++ away)).card :=
        Finset.card_le_card (Finset.biUnion_subset.2 fun id _ => hh.bytesAt_subset id)
    _ ≤ Buckets.inUse (h.buckets ++ away) := Buckets.card_bytes_le _

/-- What is in use is owned. -/
theorem Sound.inUse_le (hh : h.Sound away) : Buckets.inUse (h.buckets ++ away) ≤ h.owned := by
  have hle := Buckets.inUse_le_total fun b hb => hh.bucket b (mem_allBuckets_append hb)
  rw [hh.owned, allBuckets]
  simp only [Buckets.total_append] at hle ⊢
  omega

/-- The objects fit into the buckets. -/
theorem Sound.volume_le (hh : h.Sound away) {ids : List Nat} (hids : ids.Nodup) :
    h.volume ids ≤ h.owned :=
  Nat.le_trans (hh.volume_le_inUse hids) hh.inUse_le

theorem Sound.footprint_le (hh : h.Sound away) {id : Nat} {o : Object}
    (ho : h.object? id = some o) : o.footprint ≤ h.owned := by
  have := hh.volume_le (List.nodup_singleton id)
  simpa [volume, footprintAt_eq ho] using this

end Heap

end PinnedHeap
