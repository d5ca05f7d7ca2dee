import PinnedHeap.Cells
import PinnedHeap.Guard.Task

/-!
# What threads share

Owners and pinning tasks act on one state: what is managed, foreign memory,
the count of the tasks that hold a retain, and the tasks themselves.
`Task.step` is the next step of a task, and `Shared.runTask` lets a task go on
until it waits or has ended.
-/

namespace PinnedHeap

/-- What the threads of one process share: what is managed, foreign memory, and
the pinning tasks. -/
structure Shared (σ : Type) where
  /-- The state of the memory managers. -/
  managed : σ
  /-- Foreign memory. -/
  cells : Cells
  /-- How many tasks hold a retain. -/
  holding : Nat
  /-- All tasks that were ever started; a task is known by its position. -/
  tasks : List (Task σ)
  /-- Why the operating system does not start a task, if it does not. -/
  refusal : TaskSettings → Option String

namespace Shared

variable {σ : Type}

/-- The managed state as a part of what is shared. -/
def managedPlace : Place (Shared σ) σ where
  get p := p.managed
  set s p := { p with managed := s }

/-! What one operating system does with the size of a stack. These figures serve to run
the program and to give examples; what holds of it holds whatever `refusal` says. -/

/-- The least size of a stack that could never be mapped. -/
def hopelessStack : Nat := 0x1000000000000000

/-- Stacks are cut down to a multiple of this. -/
def stackAlignment : Nat := 64

/-- The size of the page that stands guard at the end of a stack. -/
def guardPage : Nat := 4096

/-- A system that refuses stacks that could never be mapped. It takes those for a
mistake that, with the page that guards them, do not fit among all addresses. -/
def standardRefusal (s : TaskSettings) : Option String :=
  if Word.limit ≤ s.stackSize / stackAlignment * stackAlignment + guardPage then
    some "Invalid argument (os error 22)"
  else if hopelessStack ≤ s.stackSize then some "Resource temporarily unavailable (os error 11)"
  else none

/-- Nothing is written and no task started. -/
def start (managed : σ) : Shared σ where
  managed
  cells := .blank
  holding := 0
  tasks := []
  refusal := standardRefusal

/-- Runs an action on the managed state, on a thread. -/
def onManaged {α : Type} (thread : String) (x : Action Notice σ α) :
    Action Entry (Shared σ) α :=
  Action.mapNotices (Entry.mk thread) (Action.within managedPlace x)

end Shared

namespace Task

variable {σ : Type}

/-- The task after a call of its manager: in the next phase, or ended. -/
def after (t : Task σ) (next : Phase) : Except Fault Unit → Task σ
  | .ok () => { t with phase := next }
  | .error e => t.failed e

/-- Calls the manager and goes on to the next phase. -/
def call (t : Task σ) (x : Action Notice σ Unit) (next : Phase) :
    Action Entry (Shared σ) (Task σ) := do
  let r ← Action.attempt (Shared.onManaged t.thread x)
  return t.after next r

/-- Gives a notice and goes on to the next phase. -/
def report (t : Task σ) (n : Notice) (next : Phase) :
    Action Entry (Shared σ) (Task σ) := do
  Action.note ⟨t.thread, n⟩
  return { t with phase := next }

/-- The next step of the task. -/
def step (t : Task σ) : Action Entry (Shared σ) (Task σ) :=
  match t.phase with
  | .retain => t.call (t.manager.retain t.thread t.address) .countIn
  | .countIn => do
    Action.update fun p => { p with holding := p.holding + 1 }
    return { t with phase := .reportRetained }
  | .reportRetained => t.report (.taskRetained t.manager.name t.address) .confirmPin
  | .confirmPin => return { t with phase := .await, established := t.established.fire }
  | .await =>
    match t.terminate.signal with
    | .armed => return t
    | .fired => return { t with phase := .unretain }
    | .abandoned => return { t with phase := .reportVanished }
  | .reportVanished => t.report (.guardVanished t.address) .unretain
  | .unretain => t.call (t.manager.unretain t.thread t.address) .countOut
  | .countOut => do
    Action.update fun p => { p with holding := p.holding - 1 }
    return { t with phase := .reportUnretained }
  | .reportUnretained => t.report (.taskUnretained t.manager.name t.address) .confirmRelease
  | .confirmRelease => return { t with phase := .close, unwound := t.unwound.fire }
  | .close => t.call t.manager.close (.ended none)
  | .ended _ => return t

end Task

namespace Shared

variable {σ : Type}

/-- The task at a position, changed. -/
def modifyTask (p : Shared σ) (i : Nat) (f : Task σ → Task σ) : Shared σ :=
  { p with tasks := p.tasks.modify i f }

/-- Lets a task take a step, if it can. -/
def stepTask (i : Nat) : Action Entry (Shared σ) Unit := do
  let p ← Action.read
  match p.tasks[i]? with
  | none => return ()
  | some t =>
    if t.isReady then
      let t ← t.step
      Action.update fun p => p.modifyTask i fun _ => t

/-- Lets a task take at most so many steps. -/
def stepTaskTimes (i : Nat) : Nat → Action Entry (Shared σ) Unit
  | 0 => return ()
  | n + 1 => do
    stepTask i
    stepTaskTimes i n

/-- Lets a task run until it waits or has ended. -/
def runTask (i : Nat) : Action Entry (Shared σ) Unit :=
  stepTaskTimes i Phase.retain.stepsLeft

end Shared

end PinnedHeap
