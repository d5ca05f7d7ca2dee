import PinnedHeap.Proofs.Heap.Enter
import PinnedHeap.Proofs.Placement.Alike
import PinnedHeap.Proofs.Placement.Comparison

/-!
# Storage under two placements

Which bucket takes a request depends on how much the buckets have left, and not
on where they lie: so the same bucket does in both heaps, at the same distance
from its start.
-/

namespace PinnedHeap

theorem Word.add_fault {a b : Nat} {e : Fault} (h : add a b = .error e) (f : Nat → Nat) :
    e.readdress f = e := by
  rw [(add_eq_error.1 h).2]
  rfl

theorem Word.mul_fault {a b : Nat} {e : Fault} (h : mul a b = .error e) (f : Nat → Nat) :
    e.readdress f = e := by
  rw [(mul_eq_error.1 h).2]
  rfl

namespace Buckets

variable {f : Bucket → Bucket} {n : Nat}

theorem firstFit_map (hf : ∀ b, (f b).free = b.free) (bs : List Bucket) :
    firstFit n (bs.map f) =
      (firstFit n bs).map fun x => (x.1.map f, f x.2.1, x.2.2.map f) := by
  induction bs with
  | nil => rfl
  | cons b bs ih =>
    simp only [List.map_cons, firstFit, hf, ih]
    split
    · rfl
    · cases firstFit n bs <;> rfl

theorem closeGap_map (before behind : List Bucket) :
    closeGap (before.map f) (behind.map f) = (closeGap before behind).map f := by
  simp only [closeGap, List.getLast?_map]
  cases behind.getLast? with
  | none => rfl
  | some last => simp [List.map_dropLast]

end Buckets

namespace Heap.Placements

/-- How two runs on heaps are compared. -/
def heaps (w : Placements) : Comparison Notice Heap where
  alike := w.Alike
  fault := Fault.readdress w.carry
  notice := Notice.readdress w.carry
  row := Notice.isRow
  created? := Notice.created?
  created := Heap.created
  sizes := w.sizes

variable {w : Placements} {h k : Heap} {n a : Nat} {b c : Bucket}

@[simp] theorem alike_heaps : w.heaps.alike = w.Alike := rfl

/-- The runs end alike, whatever they answer. -/
abbrev Ends (w : Placements) {α : Type} (h k : Heap) (x y : HeapAction α) : Prop :=
  w.heaps.Meets (fun _ _ => True) h k x y

/-- The runs end alike, and with the same answer. -/
abbrev Agrees (w : Placements) {α : Type} (h k : Heap) (x y : HeapAction α) : Prop :=
  w.heaps.Meets (fun r s => s = r) h k x y

/-- The same bucket under the other placement. -/
def SameBucket (w : Placements) (b c : Bucket) : Prop := w.Lies b ∧ c = b.readdress w.carry

/-- The address of `n` bytes in a block, and the same one under the other placement. -/
def SameRange (w : Placements) (n a a' : Nat) : Prop := w.Spans a n ∧ a' = w.carry a

open Comparison

theorem Lies.whole (hb : w.Lies b) : w.Spans b.start b.capacity :=
  ⟨b.number, b.capacity, 0, hb.size, by omega, hb.start⟩

theorem Lies.spans (hb : w.Lies b) (hn : n ≤ b.free) : w.Spans (b.start + b.used) n := by
  refine ⟨b.number, b.capacity, b.used, hb.size, ?_, by rw [hb.start]⟩
  have := hb.used_le
  simp only [Bucket.free] at hn
  omega

theorem Lies.carry_add (hb : w.Lies b) {off : Nat} (hoff : off ≤ b.capacity) :
    w.carry (b.start + off) = w.carry b.start + off := by
  rw [hb.start, carry_inside hb.size hoff, carry_start hb.size]

/-- Both buckets give the bytes at their cursors, or neither does. -/
theorem answers_allocate (hb : w.Lies b) (n : Nat) :
    w.heaps.Answers (fun x y => w.SameRange n x.1 y.1 ∧ w.SameBucket x.2 y.2) (b.allocate n)
      ((b.readdress w.carry).allocate n) := by
  unfold Bucket.allocate
  by_cases hw : n % Word.size ≠ 0
  · simp only [if_pos hw]
    rfl
  · by_cases hf : b.free < n
    · have hf' : (b.readdress w.carry).free < n := hf
      simp only [if_neg hw, if_pos hf, if_pos hf']
      rfl
    · have hf' : ¬ (b.readdress w.carry).free < n := hf
      have hle : n ≤ b.free := Nat.le_of_not_lt hf
      simp only [if_neg hw, if_neg hf, if_neg hf']
      refine ⟨⟨hb.spans hle, (hb.carry_add hb.used_le).symm⟩, ⟨hb.size, hb.start, ?_⟩, rfl⟩
      have := hb.used_le
      simp only [Bucket.free] at hle
      show b.used + n ≤ b.capacity
      omega

theorem ends_charge (hst : w.Alike h k) (n : Nat) : w.Ends h k (charge n) (charge n) := by
  obtain ⟨ht, hm, hx⟩ := hst
  refine .read_bind (.ofExcept_bind ⟨ht, hm, hx⟩ (fun e he => Word.add_fault he _) fun s _ => ?_)
  exact .update ⟨ht.congr rfl ht.buckets rfl rfl rfl, hm, hx⟩ rfl

theorem canCreate_image {m : Memory} {x : AddressIndex} :
    (w.image h m x).CanCreate n ↔ h.CanCreate n :=
  ⟨fun hc => ⟨hc.1, hc.2, hc.3⟩, fun hc => ⟨hc.1, hc.2, hc.3⟩⟩

/-- The next bucket is the next block. -/
theorem meets_createBucket (hst : w.Alike h k) (n : Nat) :
    w.heaps.Meets w.SameBucket h k (createBucket n) (createBucket n) := by
  obtain ⟨ht, hm, hx⟩ := hst
  intro hsizes
  by_cases hcan : h.CanCreate n
  · rw [run_createBucket hcan] at hsizes ⊢
    rw [run_createBucket (canCreate_image.2 hcan)]
    have hsize : w.sizes[h.created]? = some (h.newCapacity n) := by
      obtain ⟨later, hlater⟩ := hsizes
      have hhead := congrArg List.head? hlater
      rw [List.head?_drop] at hhead
      exact hhead.symm
    have hstart : h.placement h.created = w.here h.created := by rw [ht.placement]
    refine ⟨⟨⟨hsize, hstart, Nat.zero_le _⟩, ?_⟩, ⟨ht.congr rfl ht.buckets rfl rfl rfl, hm, hx⟩,
      .entry _ .nil, rfl⟩
    have hcarry : w.carry (h.placement h.created) = w.there h.created := by
      rw [hstart, carry_start hsize]
    simp only [newBucket, Bucket.readdress, hcarry]
    rfl
  · rw [run_createBucket_of_not hcan, run_createBucket_of_not (mt canCreate_image.1 hcan)]
    refine ⟨?_, ⟨ht, hm, hx⟩, .nil, rfl⟩
    show h.creationFault n = (h.creationFault n).readdress w.carry
    unfold creationFault
    split
    · rfl
    · split <;> rfl

theorem meets_obtainBucket (hst : w.Alike h k) (n : Nat) :
    w.heaps.Meets w.SameBucket h k (obtainBucket n) (obtainBucket n) := by
  obtain @⟨m, x, ht, hm, hx⟩ := hst
  refine .read_bind ?_
  have hspare : (w.image h m x).spare = h.spare.map (Bucket.readdress w.carry) := rfl
  rw [hspare, Buckets.firstFit_map Bucket.free_readdress]
  cases hfit : Buckets.firstFit n h.spare with
  | none => exact meets_createBucket ⟨ht, hm, hx⟩ n
  | some found =>
    obtain ⟨before, b, behind⟩ := found
    obtain ⟨hb, -, -⟩ := Buckets.firstFit_eq_some hfit
    have hlies : w.Lies b := ht.buckets b (by simp [allBuckets, hb])
    simp only [Option.map_some]
    refine .update_bind rfl ?_ fun _ _ _ hst => .pure hst ⟨hlies, rfl⟩
    rw [Buckets.closeGap_map]
    refine ⟨ht.congr rfl (fun c hc => ht.buckets c ?_) rfl rfl rfl, hm, hx⟩
    simp only [allBuckets, hb, List.mem_append, List.mem_cons,
      (Buckets.closeGap_perm before behind).mem_iff] at hc ⊢
    tauto

theorem Tidy.alike_buckets {m : Memory} {x : AddressIndex} {bs : List Bucket} (ht : w.Tidy h)
    (hm : w.SameBytes h.memory m) (hx : w.SameIndex h.index x) (hbs : ∀ b ∈ bs, w.Lies b) :
    w.Alike { h with buckets := bs }
      { w.image h m x with buckets := bs.map (Bucket.readdress w.carry) } := by
  refine ⟨ht.congr rfl (fun c hc => ?_) rfl rfl rfl, hm, hx⟩
  rcases List.mem_append.1 hc with hc | hc
  · exact hbs c hc
  · exact ht.buckets c (List.mem_append_right _ hc)

theorem meets_reserveOutside (hst : w.Alike h k) (n : Nat) :
    w.heaps.Meets (w.SameRange n) h k (reserveOutside n) (reserveOutside n) := by
  refine (meets_obtainBucket hst n).bind fun b c h k _ hbc hst => ?_
  obtain ⟨hb, rfl⟩ := hbc
  refine .answers_bind hst (answers_allocate hb n) fun ⟨a, b⟩ ⟨a', c⟩ _ hrs => ?_
  obtain ⟨hrange, hb, rfl⟩ := hrs
  obtain @⟨m, x, ht, hm, hx⟩ := hst
  refine .update_bind rfl ?_ fun _ _ _ hst => .pure hst hrange
  have hbs : ∀ c ∈ h.buckets ++ [b], w.Lies c := by
    intro c hc
    rcases List.mem_append.1 hc with hc | hc
    · exact ht.buckets c (List.mem_append_left _ hc)
    · exact List.mem_singleton.1 hc ▸ hb
  simpa [image] using ht.alike_buckets hm hx hbs

/-- The same storage is found. -/
theorem meets_reserve (hst : w.Alike h k) (n : Nat) :
    w.heaps.Meets (w.SameRange n) h k (reserve n) (reserve n) := by
  refine (ends_charge hst n).bind fun _ _ h k _ _ hst => .read_bind ?_
  obtain @⟨m, x, ht, hm, hx⟩ := hst
  have hbuckets : (w.image h m x).buckets = h.buckets.map (Bucket.readdress w.carry) := rfl
  rw [hbuckets, Buckets.firstFit_map Bucket.free_readdress]
  cases hfit : Buckets.firstFit n h.buckets with
  | none => exact meets_reserveOutside ⟨ht, hm, hx⟩ n
  | some found =>
    obtain ⟨before, b, behind⟩ := found
    obtain ⟨hb, -, -⟩ := Buckets.firstFit_eq_some hfit
    have hlies (c : Bucket) (hc : c ∈ before ++ b :: behind) : w.Lies c :=
      ht.buckets c (List.mem_append_left _ (hb ▸ hc))
    refine .answers_bind ⟨ht, hm, hx⟩ (answers_allocate (hlies b (by simp)) n)
      fun ⟨a, c⟩ ⟨a', c'⟩ _ hrs => ?_
    obtain ⟨hrange, hc, rfl⟩ := hrs
    refine .update_bind rfl ?_ fun _ _ _ hst => .pure hst hrange
    have hbs : ∀ d ∈ before ++ c :: behind, w.Lies d := by
      intro d hd
      rcases List.mem_append.1 hd with hd | hd
      · exact hlies d (List.mem_append_left _ hd)
      · rcases List.mem_cons.1 hd with rfl | hd
        · exact hc
        · exact hlies d (List.mem_append_right _ (List.mem_cons_of_mem _ hd))
    simpa [image] using ht.alike_buckets hm hx hbs

/-- Objects and index stay as they are while storage is found. -/
theorem frame_reserve (hw : n % Word.size = 0)
    (hrun : ∃ ns, (reserve n).run h = ⟨.ok a, k, ns⟩) :
    k.objects = h.objects ∧ k.index = h.index := by
  obtain ⟨ns, hrun⟩ := hrun
  rcases reserve_cases h hw with ⟨-, a', k', ns', heq, hr⟩ | ⟨-, heq⟩ | ⟨-, -, -, heq⟩
  · rw [heq] at hrun
    cases hrun
    exact ⟨hr.objects, hr.index⟩
  · rw [heq] at hrun
    cases hrun
  · rw [heq] at hrun
    cases hrun

end Heap.Placements

end PinnedHeap
