import PinnedHeap.Guard.Shared

/-!
# Starting a pinning task

A task is asked for and then runs until it has confirmed the pin, or has ended
without doing so. There may also be no task at all: the operating system may
refuse the thread.
-/

namespace PinnedHeap.Shared

variable {σ : Type}

/-- Enters a new task, and answers its position. -/
def addTask (t : Task σ) : Action Entry (Shared σ) Nat := do
  let p ← Action.read
  Action.update fun p => { p with tasks := p.tasks ++ [t] }
  return p.tasks.length

/-- How an attempt to start a pinning task ended. -/
inductive Start where
  /-- The task holds the address. -/
  | established (task : Nat)
  /-- There is no task. -/
  | refused (refusal : Refusal)
  /-- The task ended before it held the address. -/
  | failed (fault : Option Fault)
  deriving DecidableEq, Repr

/-- Asks for a new task on a thread of its own. A name that contains a null
character is the caller's mistake. Where the operating system refuses, the thread
that asks is the one that lets go of the manager. -/
def launch (owner : String) (settings : TaskSettings) (manager : Manager σ)
    (address : Nat) : Action Entry (Shared σ) (Except Refusal Nat) := do
  Action.require ('\x00' ∉ settings.name.toList) (.nullInName settings.name)
  let p ← Action.read
  match p.refusal settings with
  | some reason =>
    onManaged owner manager.close
    return .error ⟨address, reason⟩
  | none =>
    let i ← addTask { thread := settings.name, address, manager }
    return .ok i

/-- How the task stands after it was started and has run. -/
def startOf (p : Shared σ) (i : Nat) : Start :=
  match p.tasks[i]? with
  | none => .failed none
  | some t => if t.established.signal = .fired then .established i else .failed t.fault?

/-- Starts a pinning task and waits until it holds the address. -/
def begin (owner : String) (settings : TaskSettings) (manager : Manager σ)
    (address : Nat) : Action Entry (Shared σ) Start := do
  match ← launch owner settings manager address with
  | .error refusal => return .refused refusal
  | .ok i =>
    runTask i
    return (← Action.read).startOf i

end PinnedHeap.Shared
