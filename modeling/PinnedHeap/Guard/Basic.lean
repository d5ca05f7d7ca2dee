import PinnedHeap.Guard.Start

/-!
# Guards

A guard is the owner's side of a pin. While it has an address, its pinning
task holds that address; the guard may publish the address in one foreign
cell. Releasing a guard first takes the address back from the cell, then lets
the task give it back to its manager, and waits for the end of the task.

`Guard.release` is put together from the owner's steps, which stand on their
own: `clearAddress`, `clearCell`, `takeTask`, `Shared.tellTask` and
`Shared.conclude`. Between the last two the task runs.
-/

namespace PinnedHeap

/-- The owner's side of a pin. -/
structure Guard where
  /-- The pinned address, or zero once the guard is released. -/
  address : Nat
  /-- The slot that the address was published through, until it is cleared. -/
  slot : Option Slot
  /-- Has a slot ever been bound? -/
  bound : Bool
  /-- The task, as long as the owner has not told it to stop. It stands for all that
  the owner has of the task: the trigger of `terminate`, the waiter of `unwound` and the
  thread to join. These are only ever set and taken together. -/
  task : Option Nat
  deriving DecidableEq

/-- Where a guard is in its life. -/
inductive Guard.State where
  | pinned
  | released
  deriving DecidableEq, Repr

/-- An action on a guard and what its threads share. -/
abbrev GuardAction (σ α : Type) : Type := Action Entry (Guard × Shared σ) α

namespace Shared

variable {σ : Type}

/-- Tells a task to stop. -/
def tellTask (p : Shared σ) (i : Nat) : Shared σ :=
  p.modifyTask i fun t => { t with terminate := t.terminate.fire }

/-- Goes away without telling a task to stop. -/
def forsakeTask (p : Shared σ) (i : Nat) : Shared σ :=
  p.modifyTask i fun t => { t with terminate := t.terminate.abandon }

/-- Has the task confirmed that the address is given back? -/
def isUnwound (p : Shared σ) (i : Nat) : Bool :=
  match p.tasks[i]? with
  | none => false
  | some t => t.unwound.signal = .fired

/-- The fault that ended a task. -/
def faultOf (p : Shared σ) (i : Nat) : Option Fault := p.tasks[i]?.bind Task.fault?

/-- What the owner does after the end of its task. If the task has not confirmed
the release, its fault becomes the owner's, unless the owner is failing already. -/
def conclude (owner : String) (unwinding : Bool) (address i : Nat) :
    Action Entry (Shared σ) Unit := do
  let p ← Action.read
  match p.isUnwound i, p.faultOf i with
  | true, none => Action.note ⟨owner, .released address⟩
  | true, some _ =>
    Action.note ⟨owner, .failedAfterRelease address⟩
    Action.note ⟨owner, .released address⟩
  | false, some e =>
    if unwinding then Action.note ⟨owner, .failedDuringUnwind address⟩
    else Action.fail e
  | false, none => Action.require (unwinding = true) (.releaseUnconfirmed address)

end Shared

namespace Guard

variable {σ : Type}

/-- The guard of an address that a task holds. -/
def of (address task : Nat) : Guard where
  address
  slot := none
  bound := false
  task := some task

/-- Has the guard been released? -/
def isReleased (g : Guard) : Bool := g.address == 0

/-- Where the guard is in its life. -/
def state (g : Guard) : State := if g.isReleased then .released else .pinned

/-- The name of a state. -/
def State.text : State → String
  | pinned => "Pinned"
  | released => "Released"

/-- The text of a guard. -/
def text (g : Guard) : String :=
  Text.record "PtrGuard" [
    ("address", Text.hex g.address), ("state", g.state.text),
    ("slot", Text.optional (g.slot.map fun s => toString s.address))]

/-- Changes the guard. -/
def modify (f : Guard → Guard) : GuardAction σ Unit := Action.update fun (g, p) => (f g, p)

/-- The guard as it is. -/
def current : GuardAction σ Guard := do return (← Action.read).1

/-- Runs an action on what the threads share. -/
def onShared {α : Type} (x : Action Entry (Shared σ) α) : GuardAction σ α :=
  Action.within .snd x

/-- Pins an address: starts a task for it and waits until the task holds it. If the
task ended before that, its fault is the answer. -/
def establish (owner : String) (settings : TaskSettings) (manager : Manager σ)
    (address : Nat) : Action Entry (Shared σ) (Except Refusal Guard) := do
  match ← Shared.begin owner settings manager address with
  | .established i =>
    Action.note ⟨owner, .pinned address⟩
    return .ok (of address i)
  | .refused refusal =>
    Action.note ⟨owner, .notPinned refusal⟩
    return .error refusal
  | .failed (some e) => Action.fail e
  | .failed none => Action.fail (.pinUnconfirmed address)

/-- Publishes the address through a slot. A guard takes one slot in its life, and a
released guard takes none. -/
def store (owner : String) (slot : Slot) : GuardAction σ Unit := do
  let g ← current
  Action.require (g.bound = false) (.alreadyBound g.address)
  if g.isReleased then return ()
  else
    modify fun g => { g with bound := true, slot := some slot }
    onShared (Action.update fun p => { p with cells := slot.write g.address p.cells })
    Action.note ⟨owner, .published g.address slot.address⟩

/-- Takes the address out of the guard. -/
def clearAddress : GuardAction σ Unit := modify fun g => { g with address := 0 }

/-- Takes the address back from the cell that it was published in. -/
def clearCell : GuardAction σ Unit := do
  let g ← current
  match g.slot with
  | none => return ()
  | some slot =>
    modify fun g => { g with slot := none }
    onShared (Action.update fun p => { p with cells := slot.write 0 p.cells })

/-- Takes the task out of the guard of an address. -/
def takeTask (address : Nat) : GuardAction σ Nat := do
  let g ← current
  match g.task with
  | none => Action.fail (.taskMissing address)
  | some i =>
    modify fun g => { g with task := none }
    return i

/-- Unpins. A guard that is released already stays as it is. -/
def release (owner : String) (unwinding : Bool) : GuardAction σ Unit := do
  let g ← current
  if g.isReleased then return ()
  else
    -- whoever reads the cell must find zero before the task lets go of the address
    clearAddress
    clearCell
    let i ← takeTask g.address
    onShared do
      Action.update fun p => p.tellTask i
      Shared.runTask i
      Shared.conclude owner unwinding g.address i

/-- Releases a guard that nobody was given, on a thread that is failing. -/
def drop (owner : String) (g : Guard) : Action Entry (Shared σ) Unit := fun p =>
  match release owner true (g, p) with
  | ⟨r, (_, p), ns⟩ => ⟨r, p, ns⟩

/-- What comes of making a guard once cleaning up has ended. A fault of that is a fault
of the whole, and then a guard that was made is dropped. -/
def handOver (owner : String) (made : Except Fault (Except Refusal Guard)) :
    Except Fault Unit → Action Entry (Shared σ) (Except Refusal Guard)
  | .ok () => Action.ofExcept made
  | .error e => do
    match made with
    | .ok (.ok g) => drop owner g
    | _ => pure ()
    Action.fail e

/-- Pins the address that `prepare` finds. Whatever came of it, `cleanup` follows. -/
def establishBetween (owner : String) (settings : TaskSettings) (manager : Manager σ)
    (prepare : Action Notice σ Nat) (cleanup : Action Notice σ Unit) :
    Action Entry (Shared σ) (Except Refusal Guard) := do
  let address ← Shared.onManaged owner prepare
  let made ← Action.attempt (establish owner settings manager address)
  -- also after a fault
  handOver owner made (← Action.attempt (Shared.onManaged owner cleanup))

end Guard

/-- How a task ended that was left without an owner. -/
structure Vanished where
  /-- Has the task confirmed that the address is given back? -/
  unwound : Bool
  /-- Has it ended without a fault? -/
  joined : Bool
  deriving DecidableEq, Repr

/-- Starts a pinning task, goes away without telling it to stop, and looks how it
ends. -/
def Shared.vanish {σ : Type} (owner : String) (settings : TaskSettings)
    (manager : Manager σ) (address : Nat) :
    Action Entry (Shared σ) (Except Refusal Vanished) := do
  match ← Shared.begin owner settings manager address with
  | .established i =>
    Action.update fun p => p.forsakeTask i
    Shared.runTask i
    let p ← Action.read
    return .ok { unwound := p.isUnwound i, joined := (p.faultOf i).isNone }
  | .refused refusal => return .error refusal
  | .failed (some e) => Action.fail e
  | .failed none => Action.fail (.pinUnconfirmed address)

end PinnedHeap
