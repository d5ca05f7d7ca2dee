/-!
# The address index

Object ids by the address at which their objects start, in the order of the
addresses. The question that it answers is which entry is the last one at or
before an address.
-/

namespace PinnedHeap

/-- Pairs of an address and an object id, by ascending address. -/
structure AddressIndex where
  entries : List (Nat × Nat)
  deriving DecidableEq, Repr

namespace AddressIndex

def empty : AddressIndex := ⟨[]⟩

/-- Enters `id` under `address` in a sorted list of entries, in place of any entry
that is there. -/
def insertEntry (address id : Nat) : List (Nat × Nat) → List (Nat × Nat)
  | [] => [(address, id)]
  | (a, i) :: rest =>
    if address < a then (address, id) :: (a, i) :: rest
    else if address = a then (address, id) :: rest
    else (a, i) :: insertEntry address id rest

/-- Enters `id` under `address`. -/
def insert (x : AddressIndex) (address id : Nat) : AddressIndex :=
  ⟨insertEntry address id x.entries⟩

/-- Removes the entry under `address`. -/
def erase (x : AddressIndex) (address : Nat) : AddressIndex :=
  ⟨x.entries.filter fun e => e.1 != address⟩

/-- The last entry at or before `address`. -/
def floor? (x : AddressIndex) (address : Nat) : Option (Nat × Nat) :=
  (x.entries.takeWhile fun e => e.1 ≤ address).getLast?

/-- The number of entries. -/
def size (x : AddressIndex) : Nat := x.entries.length

/-- The entries stand by ascending address. -/
def Sorted (x : AddressIndex) : Prop := x.entries.Pairwise fun d e => d.1 < e.1

theorem mem_insertEntry {address id : Nat} {l : List (Nat × Nat)}
    (hl : l.Pairwise fun d e => d.1 < e.1) {e : Nat × Nat} :
    e ∈ insertEntry address id l ↔ e = (address, id) ∨ (e ∈ l ∧ e.1 ≠ address) := by
  induction l with
  | nil => simp [insertEntry]
  | cons d rest ih =>
    obtain ⟨hd, hrest⟩ := List.pairwise_cons.1 hl
    unfold insertEntry
    split
    · next hlt =>
      -- the new entry goes in front of all others
      simp only [List.mem_cons]
      constructor
      · rintro (rfl | rfl | h)
        · exact .inl rfl
        · exact .inr ⟨.inl rfl, by simp; omega⟩
        · exact .inr ⟨.inr h, by have := hd e h; omega⟩
      · rintro (rfl | ⟨rfl | h, -⟩)
        · exact .inl rfl
        · exact .inr (.inl rfl)
        · exact .inr (.inr h)
    · split
      · next heq =>
        -- it takes the place of the first one
        simp only [List.mem_cons]
        constructor
        · rintro (rfl | h)
          · exact .inl rfl
          · exact .inr ⟨.inr h, by have := hd e h; omega⟩
        · rintro (rfl | ⟨rfl | h, hne⟩)
          · exact .inl rfl
          · exact absurd heq.symm hne
          · exact .inr h
      · next hne =>
        -- it goes in somewhere behind the first one
        simp only [List.mem_cons, ih hrest]
        constructor
        · rintro (rfl | rfl | ⟨h, hn⟩)
          · exact .inr ⟨.inl rfl, by simp; omega⟩
          · exact .inl rfl
          · exact .inr ⟨.inr h, hn⟩
        · rintro (rfl | ⟨rfl | h, hn⟩)
          · exact .inr (.inl rfl)
          · exact .inl rfl
          · exact .inr (.inr ⟨h, hn⟩)

theorem Sorted.insert {x : AddressIndex} (hx : x.Sorted) (address id : Nat) :
    (x.insert address id).Sorted := by
  unfold Sorted AddressIndex.insert at *
  obtain ⟨l⟩ := x
  simp only at hx ⊢
  induction l with
  | nil => simp [insertEntry]
  | cons d rest ih =>
    obtain ⟨hd, hrest⟩ := List.pairwise_cons.1 hx
    unfold insertEntry
    split
    · next hlt =>
      refine List.pairwise_cons.2 ⟨fun e he => ?_, hx⟩
      rcases List.mem_cons.1 he with rfl | he
      · exact hlt
      · have := hd e he; omega
    · split
      · next heq =>
        refine List.pairwise_cons.2 ⟨fun e he => ?_, hrest⟩
        have := hd e he; omega
      · next hne =>
        refine List.pairwise_cons.2 ⟨fun e he => ?_, ih hrest⟩
        rcases (mem_insertEntry hrest).1 he with rfl | ⟨he, -⟩
        · simp; omega
        · exact hd e he

theorem Sorted.erase {x : AddressIndex} (hx : x.Sorted) (address : Nat) :
    (x.erase address).Sorted := List.Pairwise.filter _ hx

theorem mem_insert {x : AddressIndex} (hx : x.Sorted) {address id : Nat} {e : Nat × Nat} :
    e ∈ (x.insert address id).entries ↔
      e = (address, id) ∨ (e ∈ x.entries ∧ e.1 ≠ address) := mem_insertEntry hx

theorem mem_erase {x : AddressIndex} {address : Nat} {e : Nat × Nat} :
    e ∈ (x.erase address).entries ↔ e ∈ x.entries ∧ e.1 ≠ address := by
  simp [AddressIndex.erase]

end AddressIndex

end PinnedHeap
