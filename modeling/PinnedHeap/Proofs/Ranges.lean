import PinnedHeap.Memory

/-!
# Ranges of memory

What a range of memory reads after a write, a clearing or a copy: a range that
the operation does not touch reads as before, and the range that it is about
reads as it says.
-/

namespace PinnedHeap.Memory

variable {m : Memory} {a len : Nat}

/-- `content` with `bytes` in place of what stood from `offset` on. -/
def overwrite (content : List UInt8) (offset : Nat) (bytes : List UInt8) : List UInt8 :=
  content.take offset ++ bytes ++ content.drop (offset + bytes.length)

theorem length_overwrite {content bytes : List UInt8} {offset : Nat}
    (h : offset + bytes.length ≤ content.length) :
    (overwrite content offset bytes).length = content.length := by
  simp only [overwrite, List.length_append, List.length_take, List.length_drop]
  omega

@[simp] theorem overwrite_nil (content : List UInt8) (offset : Nat) :
    overwrite content offset [] = content := by
  simp [overwrite]

theorem read_write_of_apart {start : Nat} {bytes : List UInt8}
    (h : a + len ≤ start ∨ start + bytes.length ≤ a) :
    (m.write start bytes).read a len = m.read a len :=
  read_congr fun _ _ _ => byteAt_write_of_outside (by omega)

/-- A write inside a range replaces those bytes of the range. -/
theorem read_write_inside {offset : Nat} {bytes : List UInt8}
    (h : offset + bytes.length ≤ len) :
    (m.write (a + offset) bytes).read a len = overwrite (m.read a len) offset bytes := by
  apply List.ext_getElem
  · rw [length_overwrite (by simpa using h)]
    simp
  · intro i hi _
    have hlen : i < len := by simpa using hi
    rw [getElem_read]
    simp only [overwrite, List.append_assoc]
    -- before, inside and behind the replaced bytes
    by_cases hbefore : i < offset
    · rw [byteAt_write_of_outside (by omega), List.getElem_append_left (by simp; omega)]
      simp [getElem_read]
    · rw [List.getElem_append_right (by simp; omega)]
      by_cases hinside : i < offset + bytes.length
      · rw [List.getElem_append_left (by simp; omega),
          show a + i = a + offset + (i - offset) by omega,
          byteAt_write_of_inside (by omega)]
        congr 1
        simp
        omega
      · rw [byteAt_write_of_outside (by omega), List.getElem_append_right (by simp; omega)]
        simp only [List.getElem_drop, getElem_read, List.length_take, length_read]
        congr 1
        omega

theorem read_clear_of_apart {start size : Nat} (h : a + len ≤ start ∨ start + size ≤ a) :
    (m.clear start size).read a len = m.read a len := by
  apply read_congr
  intro b h1 h2
  rw [byteAt_clear, if_neg (by omega)]

theorem read_clear_self {size : Nat} (h : len ≤ size) :
    (m.clear a size).read a len = List.replicate len 0 := by
  apply List.ext_getElem
  · simp
  · intro i hi _
    have hlen : i < len := by simpa using hi
    rw [getElem_read, byteAt_clear, if_pos (by omega), List.getElem_replicate]

theorem read_copy_of_apart {source target size : Nat}
    (h : a + len ≤ target ∨ target + size ≤ a) :
    (m.copy source target size).read a len = m.read a len := by
  apply read_congr
  intro b h1 h2
  rw [byteAt_copy, if_neg (by omega)]

theorem read_copy_self {source size : Nat} (h : len ≤ size) :
    (m.copy source a size).read a len = m.read source len := by
  apply List.ext_getElem
  · simp
  · intro i hi _
    have hlen : i < len := by simpa using hi
    rw [getElem_read, getElem_read, byteAt_copy, if_pos (by omega)]
    congr 1
    omega

end PinnedHeap.Memory
