import PinnedHeap.Heap.Basic

/-!
# Placements

Where in memory the buckets of a heap lie. A heap takes any placement; this
one puts them at equal distances. What does not depend on the placement is in
which bucket an address lies and how far from its start.
-/

namespace PinnedHeap.Heap

/-- Places buckets `stride` bytes apart, the first one at `base`. -/
def spaced (base stride : Nat) (number : Nat) : Nat := base + number * stride

theorem spaced_mod_size {base stride : Nat} (hb : base % Word.size = 0)
    (hs : stride % Word.size = 0) (number : Nat) :
    spaced base stride number % Word.size = 0 := by
  obtain ⟨s, rfl⟩ := Nat.dvd_of_mod_eq_zero hs
  simp only [spaced, Word.size] at *
  rw [Nat.mul_left_comm, Nat.add_mul_mod_self_left]; exact hb

/-- Every bucket that was created, in use or spare. -/
def allBuckets (h : Heap) : List Bucket := h.buckets ++ h.spare

/-- The number of the bucket in which an address lies, or which ends there, and the
distance from its start. -/
def locate? (h : Heap) (address : Nat) : Option (Nat × Nat) :=
  (h.allBuckets.find? fun b => b.start ≤ address && address ≤ b.stop).map fun b =>
    (b.number, address - b.start)

theorem locate?_eq_some {h : Heap} {address number offset : Nat}
    (hl : h.locate? address = some (number, offset)) :
    ∃ b ∈ h.allBuckets, b.number = number ∧ address = b.start + offset ∧
      offset ≤ b.capacity := by
  obtain ⟨b, hb, he⟩ := Option.map_eq_some_iff.1 hl
  have hin : b.start ≤ address ∧ address ≤ b.stop := by
    simpa only [Bool.and_eq_true, decide_eq_true_eq] using List.find?_some hb
  have hstop : b.stop = b.start + b.capacity := rfl
  obtain ⟨rfl, rfl⟩ := Prod.mk.inj he
  exact ⟨b, List.mem_of_find?_eq_some hb, rfl, by omega, by omega⟩

end PinnedHeap.Heap
