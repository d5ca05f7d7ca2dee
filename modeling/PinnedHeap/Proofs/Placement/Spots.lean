import Mathlib.Data.List.Find
import PinnedHeap.Heap.Placement
import PinnedHeap.Proofs.Placement.Guards

/-!
# Places named by what lies there

An owner does not know where buckets will lie. It names an address by something
that has one, an object, a bucket or a guard, and by the distance from there.
What is so named lies in the same bucket, or at its end: how far it is from one
bucket to another nobody can know.
-/

namespace PinnedHeap

/-- The address at this distance from the start, if it is in the bucket or at its end. -/
def Bucket.at? (b : Bucket) (distance : Int) : Option Nat :=
  if 0 ≤ distance ∧ distance ≤ b.capacity then some (b.start + distance.toNat) else none

namespace Heap

/-- The bucket in which an address lies, or which ends there. -/
def bucketAt? (h : Heap) (a : Nat) : Option Bucket :=
  h.allBuckets.find? fun b => b.start ≤ a && a ≤ b.stop

/-- The bucket with this number, if the heap has it. -/
def bucket? (h : Heap) (number : Nat) : Option Bucket :=
  h.allBuckets.find? fun b => b.number == number

/-- The address so many bytes behind another one. It is in the same bucket, or both are among the
first addresses. -/
def from? (h : Heap) (a : Nat) (offset : Int) : Option Nat :=
  if offset = 0 then some a
  else if a < 0x10000 then
    if 0 ≤ a + offset ∧ a + offset < 0x10000 then some (a + offset).toNat else none
  else (h.bucketAt? a).bind fun b => b.at? ((a - b.start : Nat) + offset)

/-- The address so many bytes behind the start of an object. The object's own bytes can be named
even if the heap has lost its bucket. -/
def fromObject? (h : Heap) (o : Object) (offset : Int) : Option Nat :=
  if 0 ≤ offset ∧ offset ≤ o.len then some (o.address + offset.toNat) else h.from? o.address offset

end Heap

/-- A place in memory. -/
inductive Spot where
  /-- So many bytes behind the start of an object. -/
  | object (id : Nat) (offset : Int)
  /-- So many bytes behind the start of a bucket. -/
  | bucket (number : Nat) (offset : Int)
  /-- So many bytes behind the address of a guard. -/
  | guard (k : Nat) (offset : Int)
  /-- One of the first addresses, at which no bucket lies. -/
  | low (a : Nat) (h : a < 0x10000)

namespace Spot

/-- The address of the place at this moment, if there is one. -/
def resolve? (x : Holdings Heap) : Spot → Option Nat
  | object id offset => (x.2.managed.object? id).bind fun o => x.2.managed.fromObject? o offset
  | bucket number offset => (x.2.managed.bucket? number).bind fun b => b.at? offset
  | guard k offset => x.1[k]?.bind fun g => x.2.managed.from? g.address offset
  | low a _ => some a

/-- The address of the place, if there are `n` bytes from there to the end of its bucket. -/
def range? (x : Holdings Heap) (s : Spot) (n : Nat) : Option Nat :=
  (s.resolve? x).bind fun a => (x.2.managed.bucketAt? a).bind fun b =>
    if a + n ≤ b.stop then some a else none

end Spot

namespace Heap.Placements

open Comparison

variable {w : Placements} {h k : Heap} {m : Memory} {x : AddressIndex} {a n number : Nat}
  {b : Bucket} {offset : Int} {p q : Shared Heap}

/-! ## Buckets by address and by number -/

theorem allBuckets_image :
    (w.image h m x).allBuckets = h.allBuckets.map (Bucket.readdress w.carry) :=
  (List.map_append ..).symm

theorem Lies.bounds_carry (hb : w.Lies b) (ha : w.Known a) :
    ((b.readdress w.carry).start ≤ w.carry a ∧ w.carry a ≤ (b.readdress w.carry).stop) ↔
      (b.start ≤ a ∧ a ≤ b.stop) := by
  simp only [Bucket.stop, Bucket.start_readdress, Bucket.capacity_readdress]
  rw [hb.start, carry_start hb.size]
  exact carry_bounds hb.size ha

theorem bucketAt?_image (ht : w.Tidy h) (ha : w.Known a) :
    (w.image h m x).bucketAt? (w.carry a) = (h.bucketAt? a).map (Bucket.readdress w.carry) := by
  rw [bucketAt?, allBuckets_image, List.find?_map]
  refine congrArg _ (List.find?_congr fun b hb => ?_)
  rw [Bool.eq_iff_iff]
  simp only [Function.comp_apply, Bool.and_eq_true, decide_eq_true_eq]
  exact (ht.buckets b hb).bounds_carry ha

theorem bucket?_image :
    (w.image h m x).bucket? number = (h.bucket? number).map (Bucket.readdress w.carry) := by
  rw [bucket?, allBuckets_image, List.find?_map]
  rfl

theorem Tidy.lies_of_bucketAt? (ht : w.Tidy h) (hb : h.bucketAt? a = some b) :
    w.Lies b ∧ b.start ≤ a ∧ a ≤ b.start + b.capacity := by
  refine ⟨ht.buckets b (List.mem_of_find?_eq_some hb), ?_⟩
  have hin := List.find?_some hb
  rwa [Bool.and_eq_true, decide_eq_true_eq, decide_eq_true_eq] at hin

theorem Tidy.lies_of_bucket? (ht : w.Tidy h) (hb : h.bucket? number = some b) : w.Lies b :=
  ht.buckets b (List.mem_of_find?_eq_some hb)

/-- An address of a bucket is as far from the start of the bucket under both placements. -/
theorem Lies.carry_sub (hb : w.Lies b) (hle : b.start ≤ a) (hstop : a ≤ b.start + b.capacity) :
    w.carry a - w.carry b.start = a - b.start := by
  obtain ⟨d, rfl⟩ := Nat.exists_eq_add_of_le hle
  rw [hb.carry_add (by omega), Nat.add_sub_cancel_left, Nat.add_sub_cancel_left]

/-- An address lies in the same bucket under both placements, at the same place. -/
theorem locate?_image (ht : w.Tidy h) (ha : w.Known a) :
    (w.image h m x).locate? (w.carry a) = h.locate? a := by
  have hlocate (h : Heap) (a : Nat) :
      h.locate? a = (h.bucketAt? a).map fun b => (b.number, a - b.start) := rfl
  rw [hlocate, hlocate, bucketAt?_image ht ha]
  cases hb : h.bucketAt? a with
  | none => rfl
  | some b =>
    obtain ⟨hlies, hle, hstop⟩ := ht.lies_of_bucketAt? hb
    simp only [Option.map_some, Bucket.number_readdress, Bucket.start_readdress,
      hlies.carry_sub hle hstop]

/-! ## Spots -/

/-- The same address, of which `P` holds, or none. -/
def SameSpot (w : Placements) (P : Nat → Prop) (r s : Option Nat) : Prop :=
  s = r.map w.carry ∧ ∀ a, r = some a → P a

variable {P : Nat → Prop}

theorem SameSpot.none : w.SameSpot P none none := ⟨rfl, fun a ha => by cases ha⟩

theorem SameSpot.some (ha : P a) : w.SameSpot P (some a) (some (w.carry a)) :=
  ⟨rfl, fun _ hb => Option.some.inj hb ▸ ha⟩

theorem Lies.at? (hb : w.Lies b) (offset : Int) :
    w.SameSpot w.Known (b.at? offset) ((b.readdress w.carry).at? offset) := by
  unfold Bucket.at?
  rw [Bucket.capacity_readdress, Bucket.start_readdress]
  by_cases hin : 0 ≤ offset ∧ offset ≤ b.capacity
  · rw [if_pos hin, if_pos hin, ← hb.carry_add (by omega), hb.start]
    exact .some (.inside hb.size (by omega))
  · rw [if_neg hin, if_neg hin]
    exact .none

theorem sameSpot_from? (ht : w.Tidy h) (ha : w.Known a) (offset : Int) :
    w.SameSpot w.Known (h.from? a offset) ((w.image h m x).from? (w.carry a) offset) := by
  unfold from?
  by_cases hzero : offset = 0
  · rw [if_pos hzero, if_pos hzero]
    exact .some ha
  rw [if_neg hzero, if_neg hzero, bucketAt?_image ht ha]
  by_cases hlow : a < 0x10000
  · rw [carry_low hlow, if_pos hlow, if_pos hlow]
    split
    · next hin =>
      have hin : (a + offset).toNat < 0x10000 := by omega
      have hsome : w.SameSpot w.Known _ _ := .some (.low hin)
      rwa [carry_low hin] at hsome
    · exact .none
  · have hhigh : ¬ w.carry a < 0x10000 := mt (carry_lt_low ha).1 hlow
    rw [if_neg hlow, if_neg hhigh]
    cases hb : h.bucketAt? a with
    | none => exact .none
    | some b =>
      obtain ⟨hlies, hle, hstop⟩ := ht.lies_of_bucketAt? hb
      simp only [Option.map_some, Option.bind_some, Bucket.start_readdress,
        hlies.carry_sub hle hstop]
      exact hlies.at? _

theorem sameSpot_fromObject? {o : Object} (ht : w.Tidy h) (ho : w.Lodges o) (offset : Int) :
    w.SameSpot w.Known (h.fromObject? o offset)
      ((w.image h m x).fromObject? (o.readdress w.carry) offset) := by
  unfold fromObject?
  by_cases hin : 0 ≤ offset ∧ offset ≤ o.len
  · have hin' : 0 ≤ offset ∧ offset ≤ (o.readdress w.carry).len := hin
    have hle : offset.toNat ≤ o.len := by omega
    rw [if_pos hin, if_pos hin', Object.address_readdress, ← ho.spans_len.carry_add hle]
    exact .some (ho.spans_len.add hle).known
  · have hin' : ¬ (0 ≤ offset ∧ offset ≤ (o.readdress w.carry).len) := hin
    rw [if_neg hin, if_neg hin']
    exact sameSpot_from? ht ho.known offset

/-- A spot is the same address under both placements. -/
theorem sameSpot_resolve? {y z : Holdings Heap} (hyz : w.holdings.alike y z) (s : Spot) :
    w.SameSpot w.Known (s.resolve? y) (s.resolve? z) := by
  obtain ⟨gs, p⟩ := y
  obtain ⟨gs', q⟩ := z
  obtain ⟨⟨hknown, rfl⟩, hst⟩ := hyz
  obtain ⟨h, cells, holding, tasks, refusal⟩ := p
  obtain ⟨k, cells', holding', tasks', refusal'⟩ := q
  have hst : w.Alike h k := hst.managed
  obtain @⟨m, x, ht, hm, hx⟩ := hst
  cases s with
  | low a ha =>
    have hsome : w.SameSpot w.Known _ _ := .some (.low ha)
    rwa [carry_low ha] at hsome
  | bucket number offset =>
    simp only [Spot.resolve?, bucket?_image]
    cases hb : h.bucket? number with
    | none => exact .none
    | some b => exact (ht.lies_of_bucket? hb).at? offset
  | guard k offset =>
    simp only [Spot.resolve?, List.getElem?_map]
    cases hg : gs[k]? with
    | none => exact .none
    | some g => exact sameSpot_from? ht (hknown g (List.mem_of_getElem? hg)) offset
  | object id offset =>
    simp only [Spot.resolve?, object?_image]
    cases ho : h.object? id with
    | none => exact .none
    | some o => exact sameSpot_fromObject? ht (ht.objects id o ho) offset

/-- So many bytes from a spot on are in one block, or under neither placement in a bucket. -/
theorem sameSpot_range? {y z : Holdings Heap} (hyz : w.holdings.alike y z) (s : Spot) (n : Nat) :
    w.SameSpot (w.Spans · n) (s.range? y n) (s.range? z n) := by
  obtain ⟨heq, hknown⟩ := sameSpot_resolve? hyz s
  unfold Spot.range?
  rw [heq]
  cases hs : s.resolve? y with
  | none => exact .none
  | some a =>
    have ha := hknown a hs
    obtain ⟨gs, h, cells, holding, tasks, refusal⟩ := y
    obtain ⟨gs', k, cells', holding', tasks', refusal'⟩ := z
    have hst : w.Alike h k := hyz.2.managed
    obtain @⟨m, x, ht, hm, hx⟩ := hst
    simp only [Option.map_some, Option.bind_some, bucketAt?_image ht ha]
    cases hb : h.bucketAt? a with
    | none => exact .none
    | some b =>
      obtain ⟨hlies, hle, hstop⟩ := ht.lies_of_bucketAt? hb
      obtain ⟨d, rfl⟩ := Nat.exists_eq_add_of_le hle
      have hcarry : w.carry (b.start + d) = w.carry b.start + d := hlies.carry_add (by omega)
      have hroom : w.carry (b.start + d) + n ≤ (b.readdress w.carry).stop ↔
          b.start + d + n ≤ b.stop := by
        rw [hcarry]
        simp only [Bucket.stop, Bucket.start_readdress, Bucket.capacity_readdress]
        omega
      simp only [Option.map_some, Option.bind_some, hroom]
      split
      · next hfits =>
        refine .some ⟨b.number, b.capacity, d, hlies.size, ?_, by rw [hlies.start]⟩
        simp only [Bucket.stop] at hfits
        omega
      · exact .none

end Heap.Placements

end PinnedHeap
