import PinnedHeap.Proofs.Supply

/-!
# Bump allocation

What a bucket hands out between two resets lies one piece behind the other,
from the start of the bucket up to the cursor. `Bucket.Tenure` is a bucket
together with these pieces; it goes through any calls in any order, and a call
that breaks off leaves it as it was.

One invariant, `Tenure.Sound`, carries everything else: the pieces are whole
words, they are consecutive, and the cursor stands behind the last one. That
they are disjoint and lie inside the bucket are facts about consecutive pieces.
-/

namespace PinnedHeap.Bucket

/-- A piece of memory: the address of its first byte, and its size. -/
abbrev Piece : Type := Nat × Nat

namespace Piece

/-- The pieces lie one behind the other, the first one at `a`. -/
def Consecutive (a : Nat) : List Piece → Prop
  | [] => True
  | (b, n) :: rest => b = a ∧ Consecutive (a + n) rest

/-- Bytes in all of the pieces. -/
def total (ps : List Piece) : Nat := (ps.map Prod.snd).sum

variable {a : Nat} {p : Piece} {ps : List Piece}

@[simp] theorem total_nil : total [] = 0 := rfl

@[simp] theorem total_cons (p : Piece) (ps : List Piece) : total (p :: ps) = p.2 + total ps := by
  simp [total]

@[simp] theorem total_concat (ps : List Piece) (p : Piece) :
    total (ps ++ [p]) = total ps + p.2 := by
  simp [total]

/-- A piece that goes behind the last one. -/
theorem Consecutive.concat (h : Consecutive a ps) (n : Nat) :
    Consecutive a (ps ++ [(a + total ps, n)]) := by
  induction ps generalizing a with
  | nil => exact ⟨rfl, trivial⟩
  | cons p ps ih =>
    obtain ⟨b, m⟩ := p
    obtain ⟨rfl, hrest⟩ := h
    have hsum : b + total ((b, m) :: ps) = b + m + total ps := by simp [Nat.add_assoc]
    rw [hsum]
    exact ⟨rfl, ih hrest⟩

theorem Consecutive.bounds (h : Consecutive a ps) (hp : p ∈ ps) :
    a ≤ p.1 ∧ p.1 + p.2 ≤ a + total ps := by
  induction ps generalizing a with
  | nil => cases hp
  | cons q ps ih =>
    obtain ⟨b, m⟩ := q
    obtain ⟨rfl, hrest⟩ := h
    rw [total_cons]
    rcases List.mem_cons.1 hp with rfl | hp
    · exact ⟨Nat.le_refl _, by simp⟩
    · have := ih hrest hp
      simp only
      omega

/-- No byte belongs to two of the pieces. -/
theorem Consecutive.pairwise (h : Consecutive a ps) : ps.Pairwise fun p q => p.1 + p.2 ≤ q.1 := by
  induction ps generalizing a with
  | nil => exact .nil
  | cons p ps ih =>
    obtain ⟨b, m⟩ := p
    obtain ⟨rfl, hrest⟩ := h
    exact List.pairwise_cons.2 ⟨fun q hq => (hrest.bounds hq).1, ih hrest⟩

/-- Behind whole words at a word there is another word. -/
theorem Consecutive.aligned (h : Consecutive a ps) (ha : a % Word.size = 0)
    (hw : ∀ p ∈ ps, p.2 % Word.size = 0) (hp : p ∈ ps) : p.1 % Word.size = 0 := by
  induction ps generalizing a with
  | nil => cases hp
  | cons q ps ih =>
    obtain ⟨b, m⟩ := q
    obtain ⟨rfl, hrest⟩ := h
    rcases List.mem_cons.1 hp with rfl | hp
    · exact ha
    · have hm := hw _ List.mem_cons_self
      refine ih hrest ?_ (fun p hp => hw p (List.mem_cons_of_mem _ hp)) hp
      simp only [Word.size] at *
      omega

end Piece

/-! ## What a bucket answers -/

variable {b : Bucket} {number start bytes n : Nat}

theorem allocate_of_not (hn : ¬ (n % Word.size = 0 ∧ n ≤ b.free)) :
    b.allocate n = .error (if n % Word.size = 0 then .bucketOverflow else .partialWords n) := by
  by_cases hw : n % Word.size = 0
  · have hf : b.free < n := Nat.lt_of_not_le fun hle => hn ⟨hw, hle⟩
    simp [allocate, hw, hf]
  · simp [allocate, hw]

/-! ## Calls in any order -/

/-- What can be asked of a bucket. -/
inductive Ask where
  | allocate (bytes : Nat)
  | reset
  deriving DecidableEq, Repr

/-- A bucket, and the pieces that it has handed out since it was reset, first come first. -/
structure Tenure where
  bucket : Bucket
  pieces : List Piece
  deriving DecidableEq, Repr

namespace Tenure

variable {x : Tenure}

/-- After a call. A call that breaks off changes nothing. -/
def after (x : Tenure) : Ask → Tenure
  | .allocate n =>
    match x.bucket.allocate n with
    | .ok (a, b) => ⟨b, x.pieces ++ [(a, n)]⟩
    | .error _ => x
  | .reset => ⟨x.bucket.reset, []⟩

/-- After calls, one after the other. -/
def afterAll (x : Tenure) (asks : List Ask) : Tenure := asks.foldl after x

/-- The pieces are what is in use of the bucket. -/
structure Sound (x : Tenure) : Prop where
  consecutive : Piece.Consecutive x.bucket.start x.pieces
  used : Piece.total x.pieces = x.bucket.used
  used_le : x.bucket.used ≤ x.bucket.capacity
  words : ∀ p ∈ x.pieces, p.2 % Word.size = 0

/-- The bucket is the same but for what of it is in use. -/
def SameBlock (x y : Tenure) : Prop := y.bucket.reset = x.bucket.reset

theorem Sound.after (hx : x.Sound) (q : Ask) : (x.after q).Sound := by
  cases q with
  | reset => exact ⟨trivial, rfl, Nat.zero_le _, fun p hp => absurd hp List.not_mem_nil⟩
  | allocate n =>
    by_cases hn : n % Word.size = 0 ∧ n ≤ x.bucket.free
    · obtain ⟨hw, hle⟩ := hn
      simp only [Tenure.after, allocate_of_fits hw hle]
      refine ⟨?_, ?_, ?_, ?_⟩
      · show Piece.Consecutive x.bucket.start (x.pieces ++ [(x.bucket.start + x.bucket.used, n)])
        rw [← hx.used]
        exact hx.consecutive.concat n
      · rw [Piece.total_concat, hx.used, used_bump]
      · have := hx.used_le
        simp only [free] at hle
        simp only [used_bump, capacity_bump]
        omega
      · intro p hp
        rcases List.mem_append.1 hp with hp | hp
        · exact hx.words p hp
        · rw [List.mem_singleton.1 hp]
          exact hw
    · simpa only [Tenure.after, allocate_of_not hn] using hx

theorem sameBlock_after (x : Tenure) (q : Ask) : SameBlock x (x.after q) := by
  cases q with
  | reset => rfl
  | allocate n =>
    by_cases hn : n % Word.size = 0 ∧ n ≤ x.bucket.free
    · simp only [SameBlock, after, allocate_of_fits hn.1 hn.2, reset_bump]
    · simp only [SameBlock, after, allocate_of_not hn]

theorem Sound.afterAll (hx : x.Sound) (asks : List Ask) :
    (x.afterAll asks).Sound ∧ SameBlock x (x.afterAll asks) := by
  induction asks generalizing x with
  | nil => exact ⟨hx, rfl⟩
  | cons q asks ih =>
    obtain ⟨hsound, hsame⟩ := ih (hx.after q)
    exact ⟨hsound, hsame.trans (sameBlock_after x q)⟩

/-- A new bucket has handed out nothing. -/
theorem sound_create (hb : create number start bytes = .ok b) : Sound ⟨b, []⟩ := by
  obtain ⟨-, rfl⟩ := create_eq_ok.1 hb
  exact ⟨trivial, rfl, Nat.zero_le _, fun p hp => absurd hp List.not_mem_nil⟩

end Tenure

/-- A bucket that lies at `start` and was made for `bytes` bytes, and what it has handed out. -/
structure Bumps (start bytes : Nat) (x : Tenure) : Prop where
  start_eq : x.bucket.start = start
  capacity : x.bucket.capacity = Word.roundUp bytes
  balance : x.bucket.used + x.bucket.free = x.bucket.capacity
  /-- Whole words that are left can be had: they lie behind what is in use. -/
  granted : ∀ n, n % Word.size = 0 → n ≤ x.bucket.free →
    x.bucket.allocate n = .ok (start + x.bucket.used, x.bucket.bump n) ∧
      x.after (.allocate n) =
        ⟨x.bucket.bump n, x.pieces ++ [(start + x.bucket.used, n)]⟩
  /-- Nothing else can be had, and asking for it changes nothing. -/
  refused : ∀ n, ¬ (n % Word.size = 0 ∧ n ≤ x.bucket.free) →
    x.bucket.allocate n =
        .error (if n % Word.size = 0 then .bucketOverflow else .partialWords n) ∧
      x.after (.allocate n) = x
  consecutive : Piece.Consecutive start x.pieces
  total : Piece.total x.pieces = x.bucket.used
  words : ∀ p ∈ x.pieces, p.1 % Word.size = 0 ∧ p.2 % Word.size = 0
  apart : x.pieces.Pairwise fun p q => p.1 + p.2 ≤ q.1
  inside : ∀ p ∈ x.pieces, start ≤ p.1 ∧ p.1 + p.2 ≤ start + x.bucket.capacity
  contains_iff : ∀ a, x.bucket.contains a = true ↔ start ≤ a ∧ a < start + x.bucket.capacity
  contains : ∀ p ∈ x.pieces, ∀ i < p.2, x.bucket.contains (p.1 + i) = true

theorem Tenure.Sound.bumps {x : Tenure} (hx : x.Sound) (hs : x.bucket.start % Word.size = 0)
    (hc : x.bucket.capacity = Word.roundUp bytes) : Bumps x.bucket.start bytes x := by
  have hinside : ∀ p ∈ x.pieces, x.bucket.start ≤ p.1 ∧
      p.1 + p.2 ≤ x.bucket.start + x.bucket.capacity := by
    intro p hp
    have hbounds := hx.consecutive.bounds hp
    rw [hx.used] at hbounds
    have := hx.used_le
    omega
  exact {
    start_eq := rfl
    capacity := hc
    balance := Nat.add_sub_cancel' hx.used_le
    granted := by
      intro n hw hle
      have hrun := allocate_of_fits hw hle
      exact ⟨hrun, by simp only [Tenure.after, hrun]⟩
    refused := by
      intro n hn
      have hrun := allocate_of_not hn
      exact ⟨hrun, by simp only [Tenure.after, hrun]⟩
    consecutive := hx.consecutive
    total := hx.used
    words := fun p hp => ⟨hx.consecutive.aligned hs hx.words hp, hx.words p hp⟩
    apart := hx.consecutive.pairwise
    inside := hinside
    contains_iff := fun a => Bucket.contains_iff
    contains := by
      intro p hp i hi
      have := hinside p hp
      exact Bucket.contains_iff.2 (by omega) }

/-- Whatever is asked of a new bucket, and in whatever order: it keeps its place and its size, it
hands out what it has left and nothing else, and what it has handed out since it was last reset
are pieces of whole words, one behind the other from its start up to the cursor. -/
theorem create_bumps (hb : create number start bytes = .ok b) (hs : start % Word.size = 0)
    (asks : List Ask) : Bumps start bytes (Tenure.afterAll ⟨b, []⟩ asks) := by
  obtain ⟨hsound, hsame⟩ := (Tenure.sound_create hb).afterAll asks
  obtain ⟨-, rfl⟩ := create_eq_ok.1 hb
  generalize (Tenure.afterAll _ asks) = x at hsound hsame ⊢
  have hstart : x.bucket.start = start := by
    rw [← start_reset x.bucket, hsame]
    rfl
  have hcap : x.bucket.capacity = Word.roundUp bytes := by
    rw [← capacity_reset x.bucket, hsame]
    rfl
  subst hstart
  exact hsound.bumps hs hcap

/-- Calls between which the bucket is full, is reset and is filled again. -/
def busy : List Ask :=
  [.allocate 8, .allocate 3, .allocate 24, .reset, .allocate 16, .allocate 8, .allocate 0,
    .allocate 8]

/-- A bucket for 20 bytes has 24. Part of a word, and more than is left, are refused; nothing at
all can be had even behind the last byte; and after a reset everything can be had again. -/
theorem full_bucket_bumps :
    create 0 0x10000 20 = .ok ⟨0, 0x10000, 24, 0⟩ ∧
      Tenure.afterAll ⟨⟨0, 0x10000, 24, 0⟩, []⟩ busy =
        ⟨⟨0, 0x10000, 24, 24⟩, [(0x10000, 16), (0x10010, 8), (0x10018, 0)]⟩ ∧
      Bumps 0x10000 20 (Tenure.afterAll ⟨⟨0, 0x10000, 24, 0⟩, []⟩ busy) := by
  have hb : create 0 0x10000 20 = .ok ⟨0, 0x10000, 24, 0⟩ := create_eq_ok.2 (by decide)
  exact ⟨hb, by decide, create_bumps hb (by decide) busy⟩

end PinnedHeap.Bucket
