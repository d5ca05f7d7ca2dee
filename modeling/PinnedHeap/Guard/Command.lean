import PinnedHeap.Guard.Basic

/-!
# Commands to guards

What an owner does, one thing after the other: it acts on what is managed,
makes guards, stores and releases them. A command that breaks off is a result
like any other, and the next command follows.

`Command.run` carries a command out as one block: the tasks run only while the
owner waits for them. `PinnedHeap.Guard.Interleaving` says what else may
happen in between.
-/

namespace PinnedHeap

/-- One thing that an owner does. The guards that it has made are numbered. -/
inductive Command (σ ρ : Type) where
  /-- Acts on what is managed. -/
  | act (x : Action Notice σ ρ)
  /-- Makes a guard of the address that `prepare` finds. -/
  | pin (settings : TaskSettings) (manager : Manager σ) (prepare : Action Notice σ Nat)
      (cleanup : Action Notice σ Unit)
  /-- Stores a guard. -/
  | store (guard : Nat) (slot : Slot)
  /-- Releases a guard, perhaps because the owner is failing. -/
  | release (guard : Nat) (unwinding : Bool)

/-- What came of a command. -/
inductive Result (ρ : Type) where
  /-- An action on what is managed has answered. -/
  | answer (a : ρ)
  /-- A guard was made. -/
  | made (guard : Nat)
  /-- No task was started, so no guard was made. -/
  | refused (r : Refusal)
  /-- A guard was stored or released. -/
  | done
  /-- There is no such guard. -/
  | noGuard
  /-- The command was broken off. -/
  | fault (e : Fault)

/-- The result of a command that has ended, be it by a fault. -/
def Result.ofExcept {α ρ : Type} (f : α → Result ρ) : Except Fault α → Result ρ
  | .ok a => f a
  | .error e => .fault e

/-- An owner's guards and what the threads share. -/
abbrev Holdings (σ : Type) : Type := List Guard × Shared σ

namespace Holdings

variable {σ : Type}

/-- Runs an action on one of the guards, if there is one with that number. -/
def onGuard {α : Type} (k : Nat) (x : GuardAction σ α) :
    Action Entry (Holdings σ) (Option α) := fun (guards, p) =>
  match guards[k]? with
  | none => ⟨.ok none, (guards, p), []⟩
  | some g =>
    match x (g, p) with
    | ⟨r, (g, p), ns⟩ => ⟨r.map some, (guards.set k g, p), ns⟩

/-- Takes a new guard in, and answers its number. -/
def keep (g : Guard) : Action Entry (Holdings σ) Nat := fun (guards, p) =>
  ⟨.ok guards.length, (guards ++ [g], p), []⟩

end Holdings

namespace Command

variable {σ ρ : Type}

/-- The result of an action on a guard. -/
def guardResult : Except Fault (Option Unit) → Result ρ :=
  Result.ofExcept fun found => if found.isSome then .done else .noGuard

/-- Carries out a command as one block. -/
def run (owner : String) : Command σ ρ → Action Entry (Holdings σ) (Result ρ)
  | act x => do
    let r ← Action.attempt (Action.within .snd (Shared.onManaged owner x))
    return Result.ofExcept .answer r
  | pin settings manager prepare cleanup => do
    let r ← Action.attempt (Action.within .snd
      (Guard.establishBetween owner settings manager prepare cleanup))
    match r with
    | .error e => return .fault e
    | .ok (.error refusal) => return .refused refusal
    | .ok (.ok g) => return .made (← Holdings.keep g)
  | store k slot => do
    return guardResult (← Action.attempt (Holdings.onGuard k (Guard.store owner slot)))
  | release k unwinding => do
    return guardResult (← Action.attempt (Holdings.onGuard k (Guard.release owner unwinding)))

/-- Carries out commands, each as one block. -/
def runAll (owner : String) : List (Command σ ρ) → Action Entry (Holdings σ) (List (Result ρ))
  | [] => return []
  | c :: cs => do
    let r ← run owner c
    let rs ← runAll owner cs
    return r :: rs

end Command

end PinnedHeap
