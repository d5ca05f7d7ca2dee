import PinnedHeap.Word

/-!
# Buckets

A bucket is a block of word-aligned memory that is handed out from its start
on by moving a cursor. Only a reset moves the cursor back, and a reset leaves
the memory as it is.
-/

namespace PinnedHeap

/-- A block of memory and how much of it is in use. -/
structure Bucket where
  /-- How many buckets were created before this one. -/
  number : Nat
  /-- The address of the first byte. -/
  start : Nat
  /-- The size in bytes. -/
  capacity : Nat
  /-- The cursor: how many bytes, from the start on, are in use. -/
  used : Nat
  deriving DecidableEq, Repr

namespace Bucket

/-- An unused bucket of at least `bytes` bytes, rounded up to whole words. -/
def create (number start bytes : Nat) : Except Fault Bucket :=
  if Word.roundUp bytes ≤ Word.largestBlock then
    .ok ⟨number, start, Word.roundUp bytes, 0⟩
  else .error .bucketTooLarge

/-- Bytes behind the cursor. -/
def free (b : Bucket) : Nat := b.capacity - b.used

/-- The address behind the last byte. -/
def stop (b : Bucket) : Nat := b.start + b.capacity

/-- Is the address one of the bucket's bytes? -/
def contains (b : Bucket) (address : Nat) : Bool :=
  b.start ≤ address && address < b.stop

/-- Moves the cursor over `bytes` bytes, which must be whole words, and answers
the address of the first. -/
def allocate (b : Bucket) (bytes : Nat) : Except Fault (Nat × Bucket) :=
  if bytes % Word.size ≠ 0 then .error (.partialWords bytes)
  else if b.free < bytes then .error .bucketOverflow
  else .ok (b.start + b.used, { b with used := b.used + bytes })

/-- Takes everything back. -/
def reset (b : Bucket) : Bucket := { b with used := 0 }

theorem contains_iff {b : Bucket} {a : Nat} :
    b.contains a = true ↔ b.start ≤ a ∧ a < b.start + b.capacity := by
  simp only [contains, Bool.and_eq_true, decide_eq_true_eq]
  exact Iff.rfl

theorem create_eq_ok {number start bytes : Nat} {b : Bucket} :
    create number start bytes = .ok b ↔
      Word.roundUp bytes ≤ Word.largestBlock ∧ b = ⟨number, start, Word.roundUp bytes, 0⟩ := by
  unfold create
  by_cases h : Word.roundUp bytes ≤ Word.largestBlock <;> simp [h, eq_comm]

theorem allocate_eq_ok {b b' : Bucket} {bytes a : Nat} :
    b.allocate bytes = .ok (a, b') ↔
      bytes % Word.size = 0 ∧ bytes ≤ b.free ∧ a = b.start + b.used ∧
        b' = { b with used := b.used + bytes } := by
  unfold allocate
  by_cases hw : bytes % Word.size = 0
  · by_cases hf : b.free < bytes
    · have hn : ¬ bytes ≤ b.free := by omega
      simp [hw, hf, hn]
    · have hle : bytes ≤ b.free := by omega
      simp [hw, hf, hle, eq_comm]
  · simp [hw]

end Bucket

/-! ## Lists of buckets -/

namespace Buckets

/-- The first bucket that has `bytes` bytes left, with what stands before it and
behind it. -/
def firstFit (bytes : Nat) : List Bucket → Option (List Bucket × Bucket × List Bucket)
  | [] => none
  | b :: bs =>
    if bytes ≤ b.free then some ([], b, bs)
    else (firstFit bytes bs).map fun (before, fit, behind) => (b :: before, fit, behind)

/-- Closes the gap that a bucket between `before` and `behind` has left: the last
bucket takes its place. -/
def closeGap (before behind : List Bucket) : List Bucket :=
  match behind.getLast? with
  | none => before
  | some last => before ++ last :: behind.dropLast

theorem firstFit_eq_some {bytes : Nat} {bs before behind : List Bucket} {b : Bucket}
    (h : firstFit bytes bs = some (before, b, behind)) :
    bs = before ++ b :: behind ∧ bytes ≤ b.free ∧ ∀ c ∈ before, c.free < bytes := by
  induction bs generalizing before with
  | nil => simp [firstFit] at h
  | cons c cs ih =>
    unfold firstFit at h
    split at h
    · simp_all
    · rename_i hc
      obtain ⟨⟨p, q, r⟩, hr, he⟩ := Option.map_eq_some_iff.1 h
      simp only [Prod.mk.injEq] at he
      obtain ⟨rfl, rfl, rfl⟩ := he
      obtain ⟨rfl, hfit, hbefore⟩ := ih hr
      refine ⟨rfl, hfit, fun d hd => ?_⟩
      rcases List.mem_cons.1 hd with rfl | hd
      · omega
      · exact hbefore d hd

theorem firstFit_eq_none {bytes : Nat} {bs : List Bucket} :
    firstFit bytes bs = none ↔ ∀ b ∈ bs, b.free < bytes := by
  induction bs with
  | nil => simp [firstFit]
  | cons c cs ih =>
    unfold firstFit
    split
    · simp; omega
    · simp [ih]; omega

theorem closeGap_perm (before behind : List Bucket) :
    (closeGap before behind).Perm (before ++ behind) := by
  unfold closeGap
  split
  · next h => simp [List.getLast?_eq_none_iff.1 h]
  · next last h =>
    have hb : behind = behind.dropLast ++ [last] := by
      rw [List.getLast?_eq_some_iff] at h
      obtain ⟨ys, rfl⟩ := h
      simp
    refine List.Perm.append_left _ ?_
    conv => rhs; rw [hb]
    exact (List.perm_append_singleton last behind.dropLast).symm

end Buckets

end PinnedHeap
