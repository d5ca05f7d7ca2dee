import PinnedHeap.Heap.Placement

/-!
# Two placements of the same blocks

Blocks of memory with given sizes can be placed in many ways. Two placements are
compared by a function on addresses that takes an address of a block, or the one
behind its last byte, to the same place of the same block under the other
placement: it `Carries` the blocks.

Blocks may change their order, so the order of two addresses means nothing
unless both are in one block. What is kept is which range inside a block an
address lies in (`carry_covers`), and which ranges of a block lie between it and
another address of the block (`carry_le_imp`).
-/

namespace PinnedHeap.Heap

/-- The placement keeps the blocks of these sizes clear of each other, of the first addresses and
of the upper half of all addresses. -/
structure Roomy (sizes : List Nat) (place : Nat → Nat) : Prop where
  above : ∀ i c, sizes[i]? = some c → 0x10000 ≤ place i
  below : ∀ i c, sizes[i]? = some c → place i + c ≤ 0x8000000000000000
  apart : ∀ i j c d, sizes[i]? = some c → sizes[j]? = some d → i ≠ j →
    place i + c < place j ∨ place j + d < place i

section Roomy

variable {sizes : List Nat} {place : Nat → Nat}

theorem roomy_iff : Roomy sizes place ↔ ∀ i : Fin sizes.length,
    0x10000 ≤ place i ∧ place i + sizes[i] ≤ 0x8000000000000000 ∧ ∀ j : Fin sizes.length,
      i ≠ j → place i + sizes[i] < place j ∨ place j + sizes[j] < place i := by
  have hget (i : Fin sizes.length) : sizes[i.val]? = some sizes[i] :=
    List.getElem?_eq_getElem i.isLt
  constructor
  · intro h i
    refine ⟨h.above i _ (hget i), h.below i _ (hget i), fun j hij => ?_⟩
    exact h.apart i j _ _ (hget i) (hget j) (Fin.val_ne_of_ne hij)
  · intro h
    constructor
    · intro i c hi
      obtain ⟨hlt, rfl⟩ := List.getElem?_eq_some_iff.1 hi
      exact (h ⟨i, hlt⟩).1
    · intro i c hi
      obtain ⟨hlt, rfl⟩ := List.getElem?_eq_some_iff.1 hi
      exact (h ⟨i, hlt⟩).2.1
    · intro i j c d hi hj hij
      obtain ⟨hlt, rfl⟩ := List.getElem?_eq_some_iff.1 hi
      obtain ⟨hlt', rfl⟩ := List.getElem?_eq_some_iff.1 hj
      exact (h ⟨i, hlt⟩).2.2 ⟨j, hlt'⟩ (Fin.ne_of_val_ne hij)

instance : Decidable (Roomy sizes place) := decidable_of_iff _ roomy_iff.symm

end Roomy

/-- The function takes every address of a block, its end included, to the same place of the same
block under the other placement, and leaves the first addresses where they are. -/
structure Carries (sizes : List Nat) (here there : Nat → Nat) (f : Nat → Nat) : Prop where
  low : ∀ a < 0x10000, f a = a
  inside : ∀ i c off, sizes[i]? = some c → off ≤ c → f (here i + off) = there i + off

/-! ## One function that carries the blocks -/

section Carry

variable {sizes : List Nat} {here there : Nat → Nat} {i c off a : Nat}

/-- The block in which an address lies, or which ends there. -/
def blockAt? (sizes : List Nat) (place : Nat → Nat) (a : Nat) : Option Nat :=
  (List.range sizes.length).find? fun i => place i ≤ a && a ≤ place i + sizes.getD i 0

/-- The address under the other placement. One that is in no block stays. -/
def carry (sizes : List Nat) (here there : Nat → Nat) (a : Nat) : Nat :=
  match blockAt? sizes here a with
  | some i => there i + (a - here i)
  | none => a

theorem blockAt?_inside (h : Roomy sizes here) (hi : sizes[i]? = some c) (hoff : off ≤ c) :
    blockAt? sizes here (here i + off) = some i := by
  obtain ⟨hlt, hget⟩ := List.getElem?_eq_some_iff.1 hi
  refine List.find?_range_eq_some.2 ⟨?_, List.mem_range.2 hlt, fun j hj => ?_⟩
  · simp [List.getD, hi, hoff]
  · have hjlt : j < sizes.length := Nat.lt_trans hj hlt
    have hjget : sizes[j]? = some sizes[j] := List.getElem?_eq_getElem hjlt
    have := h.apart i j c sizes[j] hi hjget (Nat.ne_of_gt hj)
    simp only [List.getD, hjget, Option.getD_some, Bool.not_eq_true', Bool.and_eq_false_iff,
      decide_eq_false_iff_not, Nat.not_le]
    omega

theorem blockAt?_low (h : Roomy sizes here) (ha : a < 0x10000) :
    blockAt? sizes here a = none := by
  refine List.find?_eq_none.2 fun i hi => ?_
  have hlt := List.mem_range.1 hi
  have hget : sizes[i]? = some sizes[i] := List.getElem?_eq_getElem hlt
  have := h.above i _ hget
  simp only [Bool.and_eq_true, decide_eq_true_eq]
  omega

theorem carries_carry (h : Roomy sizes here) (there : Nat → Nat) :
    Carries sizes here there (carry sizes here there) where
  low a ha := by simp [carry, blockAt?_low h ha]
  inside i c off hi hoff := by simp [carry, blockAt?_inside h hi hoff]

end Carry

/-- Blocks of memory, two placements that have room for them, and a function that carries the
blocks from the one to the other. -/
structure Placements where
  sizes : List Nat
  here : Nat → Nat
  there : Nat → Nat
  /-- The address under the other placement. -/
  carry : Nat → Nat
  roomy_here : Roomy sizes here
  roomy_there : Roomy sizes there
  carries : Carries sizes here there carry

namespace Placements

/-- Any two placements with room for the blocks can be compared. -/
def between {sizes : List Nat} {here there : Nat → Nat} (h : Roomy sizes here)
    (h' : Roomy sizes there) : Placements where
  sizes
  here
  there
  carry := Heap.carry sizes here there
  roomy_here := h
  roomy_there := h'
  carries := carries_carry h there

variable {w : Placements} {i c off n a b : Nat}

/-- An address that has a meaning under either placement: one of the first ones, which belong to
no block, or one in a block or at its end. -/
inductive Known (w : Placements) : Nat → Prop where
  | low {a : Nat} (h : a < 0x10000) : Known w a
  | inside {i c off : Nat} (hi : w.sizes[i]? = some c) (hoff : off ≤ c) : Known w (w.here i + off)

/-- The `n` bytes from an address on lie in one block. -/
def Spans (w : Placements) (a n : Nat) : Prop :=
  ∃ i c off, w.sizes[i]? = some c ∧ off + n ≤ c ∧ a = w.here i + off

theorem Spans.known (h : w.Spans a n) : w.Known a := by
  obtain ⟨i, c, off, hi, hoff, rfl⟩ := h
  exact .inside hi (by omega)

theorem Spans.mono {m : Nat} (h : w.Spans a n) (hm : m ≤ n) : w.Spans a m := by
  obtain ⟨i, c, off, hi, hoff, rfl⟩ := h
  exact ⟨i, c, off, hi, by omega, rfl⟩

theorem Spans.add {k : Nat} (h : w.Spans a n) (hk : k ≤ n) : w.Spans (a + k) (n - k) := by
  obtain ⟨i, c, off, hi, hoff, rfl⟩ := h
  exact ⟨i, c, off + k, hi, by omega, Nat.add_assoc ..⟩

theorem Spans.stop_le (h : w.Spans a n) : a + n ≤ 0x8000000000000000 := by
  obtain ⟨i, c, off, hi, hoff, rfl⟩ := h
  have := w.roomy_here.below i c hi
  omega

/-! ## Where an address goes -/

theorem carry_inside (hi : w.sizes[i]? = some c) (hoff : off ≤ c) :
    w.carry (w.here i + off) = w.there i + off :=
  w.carries.inside i c off hi hoff

theorem carry_start (hi : w.sizes[i]? = some c) : w.carry (w.here i) = w.there i := by
  have hcarry := carry_inside hi (Nat.zero_le c)
  rwa [Nat.add_zero, Nat.add_zero] at hcarry

theorem carry_low (ha : a < 0x10000) : w.carry a = a := w.carries.low a ha

theorem Spans.carry_add {k : Nat} (h : w.Spans a n) (hk : k ≤ n) :
    w.carry (a + k) = w.carry a + k := by
  obtain ⟨i, c, off, hi, hoff, rfl⟩ := h
  rw [Nat.add_assoc, carry_inside hi (by omega), carry_inside hi (by omega), Nat.add_assoc]

theorem Spans.carry_stop_le (h : w.Spans a n) : w.carry a + n ≤ 0x8000000000000000 := by
  obtain ⟨i, c, off, hi, hoff, rfl⟩ := h
  have := w.roomy_there.below i c hi
  rw [carry_inside hi (by omega)]
  omega

/-! ## What is kept -/

/-- Blocks are apart under both placements. -/
theorem apart {j d : Nat} (hi : w.sizes[i]? = some c) (hj : w.sizes[j]? = some d) (hij : i ≠ j) :
    (w.here i + c < w.here j ∨ w.here j + d < w.here i) ∧
      (w.there i + c < w.there j ∨ w.there j + d < w.there i) :=
  ⟨w.roomy_here.apart i j c d hi hj hij, w.roomy_there.apart i j c d hi hj hij⟩

/-- A range in a block has an address among its bytes under both placements or under neither. -/
theorem carry_covers (ha : w.Spans a n) (hb : w.Known b) :
    (w.carry a ≤ w.carry b ∧ w.carry b < w.carry a + n) ↔ (a ≤ b ∧ b < a + n) := by
  obtain ⟨i, c, off, hi, hoff, rfl⟩ := ha
  rw [carry_inside hi (by omega)]
  cases hb with
  | low hlow =>
    rw [carry_low hlow]
    have h1 := w.roomy_here.above i c hi
    have h2 := w.roomy_there.above i c hi
    omega
  | @inside j d k hj hk =>
    rw [carry_inside hj hk]
    by_cases hij : i = j
    · subst hij
      omega
    · obtain ⟨h1, h2⟩ := apart hi hj hij
      omega

/-- An address lies in a block, or at its end, under both placements or under neither. -/
theorem carry_bounds (hi : w.sizes[i]? = some c) (hb : w.Known b) :
    (w.there i ≤ w.carry b ∧ w.carry b ≤ w.there i + c) ↔ (w.here i ≤ b ∧ b ≤ w.here i + c) := by
  have h1 := w.roomy_here.above i c hi
  have h2 := w.roomy_there.above i c hi
  cases hb with
  | low hlow =>
    rw [carry_low hlow]
    omega
  | @inside j d k hj hk =>
    rw [carry_inside hj hk]
    by_cases hij : i = j
    · subst hij
      obtain rfl : d = c := Option.some.inj (hj.symm.trans hi)
      omega
    · obtain ⟨h3, h4⟩ := apart hi hj hij
      omega

/-- Between an address of a block and another one behind it begin the same ranges under both
placements: those of the block. -/
theorem carry_le_imp {m e : Nat} (ha : w.Spans a n) (hab : a ≤ b) (hbn : b < a + n)
    (he : w.Spans e m) (hm : 0 < m) :
    (w.carry e ≤ w.carry b → w.carry e ≤ w.carry a) ↔ (e ≤ b → e ≤ a) := by
  obtain ⟨i, c, off, hi, hoff, rfl⟩ := ha
  obtain ⟨j, d, k, hj, hk, rfl⟩ := he
  obtain ⟨x, rfl⟩ := Nat.exists_eq_add_of_le hab
  rw [Nat.add_assoc, carry_inside hi (by omega), carry_inside hi (by omega),
    carry_inside hj (by omega)]
  by_cases hij : i = j
  · subst hij
    omega
  · obtain ⟨h1, h2⟩ := apart hi hj hij
    omega

theorem carry_inj (ha : w.Known a) (hb : w.Known b) : w.carry a = w.carry b ↔ a = b := by
  refine ⟨fun h => ?_, fun h => h ▸ rfl⟩
  cases ha with
  | low hlow =>
    rw [carry_low hlow] at h
    cases hb with
    | low hlow' => rwa [carry_low hlow'] at h
    | inside hj hk =>
      rw [carry_inside hj hk] at h
      have := w.roomy_there.above _ _ hj
      omega
  | @inside i c off hi hoff =>
    rw [carry_inside hi hoff] at h
    cases hb with
    | low hlow' =>
      rw [carry_low hlow'] at h
      have := w.roomy_there.above _ _ hi
      omega
    | @inside j d k hj hk =>
      rw [carry_inside hj hk] at h
      by_cases hij : i = j
      · subst hij
        omega
      · obtain ⟨h1, h2⟩ := apart hi hj hij
        omega

@[simp] theorem carry_zero (w : Placements) : w.carry 0 = 0 := carry_low (by decide)

/-- Only the first addresses go to the first addresses. -/
theorem carry_lt_low (ha : w.Known a) : w.carry a < 0x10000 ↔ a < 0x10000 := by
  cases ha with
  | low hlow => rw [carry_low hlow]
  | inside hi hoff =>
    have h1 := w.roomy_here.above _ _ hi
    have h2 := w.roomy_there.above _ _ hi
    rw [carry_inside hi hoff]
    omega

/-- Only address zero goes to address zero. -/
theorem carry_eq_zero (ha : w.Known a) : w.carry a = 0 ↔ a = 0 := by
  rw [← carry_inj ha (.low (by decide)), carry_zero]

end Placements

end PinnedHeap.Heap
