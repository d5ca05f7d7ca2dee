/-!
# Memory

Bytes by absolute address. All of memory exists from the start and is zero;
what is written stays until something else is written there.

The laws say of each operation which byte every address holds afterwards.
-/

namespace PinnedHeap

/-- The content of memory. -/
structure Memory where
  /-- The byte at an address. -/
  byteAt : Nat → UInt8

namespace Memory

/-- Nothing has been written yet. -/
def blank : Memory := ⟨fun _ => 0⟩

/-- Writes `bytes` from address `start` on. -/
def write (m : Memory) (start : Nat) (bytes : List UInt8) : Memory :=
  let block := bytes.toArray
  ⟨fun a => if start ≤ a then (block[a - start]?).getD (m.byteAt a) else m.byteAt a⟩

/-- Zeroes `len` bytes from address `start` on. -/
def clear (m : Memory) (start len : Nat) : Memory :=
  ⟨fun a => if start ≤ a ∧ a < start + len then 0 else m.byteAt a⟩

/-- Copies `len` bytes from address `source` to address `target`. -/
def copy (m : Memory) (source target len : Nat) : Memory :=
  ⟨fun a =>
    if target ≤ a ∧ a < target + len then m.byteAt (source + (a - target)) else m.byteAt a⟩

/-- The `len` bytes from address `start` on. -/
def read (m : Memory) (start len : Nat) : List UInt8 :=
  (List.range len).map fun i => m.byteAt (start + i)

@[simp] theorem byteAt_blank (a : Nat) : blank.byteAt a = 0 := rfl

theorem byteAt_write (m : Memory) (start : Nat) (bytes : List UInt8) (a : Nat) :
    (m.write start bytes).byteAt a =
      if start ≤ a then (bytes[a - start]?).getD (m.byteAt a) else m.byteAt a := by
  simp [write]

/-- A byte outside the written range stays. -/
theorem byteAt_write_of_outside {m : Memory} {start : Nat} {bytes : List UInt8} {a : Nat}
    (h : a < start ∨ start + bytes.length ≤ a) :
    (m.write start bytes).byteAt a = m.byteAt a := by
  rw [byteAt_write]
  split
  · rw [List.getElem?_eq_none (by omega)]; rfl
  · rfl

/-- A byte inside the written range is the one that was written. -/
theorem byteAt_write_of_inside {m : Memory} {start i : Nat} {bytes : List UInt8}
    (h : i < bytes.length) : (m.write start bytes).byteAt (start + i) = bytes[i] := by
  simp [byteAt_write, h]

theorem byteAt_clear (m : Memory) (start len a : Nat) :
    (m.clear start len).byteAt a =
      if start ≤ a ∧ a < start + len then 0 else m.byteAt a := rfl

theorem byteAt_copy (m : Memory) (source target len a : Nat) :
    (m.copy source target len).byteAt a =
      if target ≤ a ∧ a < target + len then m.byteAt (source + (a - target))
      else m.byteAt a := rfl

@[simp] theorem length_read (m : Memory) (start len : Nat) :
    (m.read start len).length = len := by simp [read]

theorem getElem_read (m : Memory) (start len i : Nat) (h : i < (m.read start len).length) :
    (m.read start len)[i] = m.byteAt (start + i) := by simp [read]

/-- Memories that agree on a range read the same there. -/
theorem read_congr {m n : Memory} {start len : Nat}
    (h : ∀ a, start ≤ a → a < start + len → m.byteAt a = n.byteAt a) :
    m.read start len = n.read start len := by
  simp only [read, List.map_inj_left, List.mem_range]
  exact fun i hi => h _ (by omega) (by omega)

end Memory

end PinnedHeap
