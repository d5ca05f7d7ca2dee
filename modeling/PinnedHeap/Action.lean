import PinnedHeap.Fault

/-!
# Actions

An action runs on a state. It ends with an answer or with a fault, and either
way it leaves a state and the notices that it gave, in order: a fault undoes
nothing.

An action on a part of a state acts on the whole through a `Place`.
-/

namespace PinnedHeap

/-- What a run of an action leaves behind. -/
structure Outcome (ν σ α : Type) where
  /-- The answer, or the fault that broke the action off. -/
  answer : Except Fault α
  /-- The state afterwards, in either case. -/
  state : σ
  /-- The notices that were given, first one first. -/
  notices : List ν

/-- A part of a state: how to read it and how to replace it. -/
structure Place (σ τ : Type) where
  get : σ → τ
  set : τ → σ → σ

namespace Place

variable {σ τ : Type}

/-- The whole state, as a part of itself. -/
def whole : Place σ σ where
  get s := s
  set t _ := t

/-- The first component of a pair. -/
def fst : Place (σ × τ) σ where
  get s := s.1
  set a s := (a, s.2)

/-- The second component of a pair. -/
def snd : Place (σ × τ) τ where
  get s := s.2
  set b s := (s.1, b)

end Place

/-- A step on a state of type `σ` that gives notices of type `ν`. -/
def Action (ν σ α : Type) : Type := σ → Outcome ν σ α

namespace Action

variable {ν μ σ τ α β : Type}

/-- Runs the action. -/
def run (x : Action ν σ α) (s : σ) : Outcome ν σ α := x s

/-- Answers `a` and changes nothing. -/
protected def pure (a : α) : Action ν σ α := fun s => ⟨.ok a, s, []⟩

/-- Runs `x`, then `f` on its answer; a fault of `x` ends both. -/
protected def bind (x : Action ν σ α) (f : α → Action ν σ β) : Action ν σ β := fun s =>
  match x s with
  | ⟨.error e, t, ns⟩ => ⟨.error e, t, ns⟩
  | ⟨.ok a, t, ns⟩ =>
    match f a t with
    | ⟨r, u, ms⟩ => ⟨r, u, ns ++ ms⟩

instance : Monad (Action ν σ) where
  pure := Action.pure
  bind := Action.bind

/-- Breaks off with a fault. -/
def fail (e : Fault) : Action ν σ α := fun s => ⟨.error e, s, []⟩

/-- Answers what has been computed, or breaks off with its fault. -/
def ofExcept : Except Fault α → Action ν σ α
  | .ok a => Action.pure a
  | .error e => fail e

/-- The state. -/
def read : Action ν σ σ := fun s => ⟨.ok s, s, []⟩

/-- Changes the state. -/
def update (f : σ → σ) : Action ν σ Unit := fun s => ⟨.ok (), f s, []⟩

/-- Gives a notice. -/
def note (n : ν) : Action ν σ Unit := fun s => ⟨.ok (), s, [n]⟩

/-- Runs `x` and answers how it ended, be it with a fault. -/
def attempt (x : Action ν σ α) : Action ν σ (Except Fault α) := fun s =>
  match x s with
  | ⟨r, t, ns⟩ => ⟨.ok r, t, ns⟩

/-- Breaks off with `e` unless `c` holds. -/
def require (c : Prop) [Decidable c] (e : Fault) : Action ν σ Unit :=
  if c then Action.pure () else fail e

/-- Runs an action on a part of the state. -/
def within (p : Place σ τ) (x : Action ν τ α) : Action ν σ α := fun s =>
  match x (p.get s) with
  | ⟨r, t, ns⟩ => ⟨r, p.set t s, ns⟩

/-- Passes every notice through `f`. -/
def mapNotices (f : ν → μ) (x : Action ν σ α) : Action μ σ α := fun s =>
  match x s with
  | ⟨r, t, ns⟩ => ⟨r, t, ns.map f⟩

/-! Running the ways of putting actions together. -/

@[simp] theorem run_pure (a : α) (s : σ) :
    (pure a : Action ν σ α).run s = ⟨.ok a, s, []⟩ := rfl

@[simp] theorem run_fail (e : Fault) (s : σ) :
    (fail e : Action ν σ α).run s = ⟨.error e, s, []⟩ := rfl

@[simp] theorem run_read (s : σ) :
    (read : Action ν σ σ).run s = ⟨.ok s, s, []⟩ := rfl

@[simp] theorem run_update (f : σ → σ) (s : σ) :
    (update f : Action ν σ Unit).run s = ⟨.ok (), f s, []⟩ := rfl

@[simp] theorem run_note (n : ν) (s : σ) :
    (note n : Action ν σ Unit).run s = ⟨.ok (), s, [n]⟩ := rfl

theorem run_bind (x : Action ν σ α) (f : α → Action ν σ β) (s : σ) :
    (x >>= f).run s =
      match x.run s with
      | ⟨.error e, t, ns⟩ => ⟨.error e, t, ns⟩
      | ⟨.ok a, t, ns⟩ => ⟨((f a).run t).answer, ((f a).run t).state,
          ns ++ ((f a).run t).notices⟩ := rfl

/-- An action that answers is followed by what is bound to its answer. -/
theorem run_bind_of_ok {x : Action ν σ α} {f : α → Action ν σ β} {s t : σ} {a : α}
    {ns : List ν} (h : x.run s = ⟨.ok a, t, ns⟩) :
    (x >>= f).run s =
      ⟨((f a).run t).answer, ((f a).run t).state, ns ++ ((f a).run t).notices⟩ := by
  rw [run_bind, h]

/-- A fault is the end. -/
theorem run_bind_of_error {x : Action ν σ α} {f : α → Action ν σ β} {s t : σ}
    {e : Fault} {ns : List ν} (h : x.run s = ⟨.error e, t, ns⟩) :
    (x >>= f).run s = ⟨.error e, t, ns⟩ := by
  rw [run_bind, h]

theorem run_attempt (x : Action ν σ α) (s : σ) :
    (attempt x).run s = ⟨.ok (x.run s).answer, (x.run s).state, (x.run s).notices⟩ := rfl

theorem run_within (p : Place σ τ) (x : Action ν τ α) (s : σ) :
    (within p x).run s =
      ⟨(x.run (p.get s)).answer, p.set (x.run (p.get s)).state s,
        (x.run (p.get s)).notices⟩ := rfl

@[simp] theorem run_ofExcept_ok (a : α) (s : σ) :
    (ofExcept (.ok a) : Action ν σ α).run s = ⟨.ok a, s, []⟩ := rfl

@[simp] theorem run_ofExcept_error (e : Fault) (s : σ) :
    (ofExcept (.error e) : Action ν σ α).run s = ⟨.error e, s, []⟩ := rfl

theorem run_require (c : Prop) [Decidable c] (e : Fault) (s : σ) :
    (require c e : Action ν σ Unit).run s =
      ⟨if c then .ok () else .error e, s, []⟩ := by
  unfold require; split <;> rfl

end Action

end PinnedHeap
