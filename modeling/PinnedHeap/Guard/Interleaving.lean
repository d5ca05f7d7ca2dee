import PinnedHeap.Guard.Command

/-!
# Owners and tasks side by side

Any number of owners, each with commands of its own, and the pinning tasks
that they have started, with nothing to say which of them takes the next step.
An owner waits where a task has to come first: for the task to confirm a pin,
for it to confirm a release, and for its end.

The steps of an owner are the parts of which `Guard.release` and
`Guard.establishBetween` are made; those of a task are `Task.step`.
-/

namespace PinnedHeap

/-- Why a task is told to stop. -/
inductive Cause where
  /-- The owner releases guard number `guard`, perhaps because it is failing. -/
  | asked (guard : Nat) (unwinding : Bool)
  /-- The owner drops a guard that it has made, since `fault` has broken the command off. -/
  | dropped (fault : Fault)
  deriving DecidableEq

namespace Cause

/-- Is the owner failing? -/
def unwinding : Cause → Bool
  | asked _ unwinding => unwinding
  | dropped _ => true

/-- The result of the command when the release has ended. -/
def result {ρ : Type} : Cause → Except Fault Unit → Result ρ
  | asked _ _, r => .ofExcept (fun _ => .done) r
  | dropped e, _ => .fault e

end Cause

/-- What an owner is in the middle of. -/
inductive Stage (σ : Type) where
  /-- Nothing: the next command can begin. -/
  | idle
  /-- It has an address and is about to start a task for it. -/
  | launching (settings : TaskSettings) (manager : Manager σ) (address : Nat)
      (cleanup : Action Notice σ Unit)
  /-- It waits for the task to confirm the pin. -/
  | awaitingPin (task address : Nat) (cleanup : Action Notice σ Unit)
  /-- It waits for the end of a task that has not confirmed the pin. -/
  | joiningFailed (task address : Nat) (cleanup : Action Notice σ Unit)
  /-- It knows what came of the pin and has to clean up. -/
  | cleaningUp (made : Except Fault (Except Refusal Guard)) (cleanup : Action Notice σ Unit)
  /-- Cleaning up has failed, and the owner drops the guard that it has made. -/
  | dropping (guard : Guard) (fault : Fault)
  /-- It has taken the address out of a guard, but not yet out of the cell. -/
  | clearingCell (guard address : Nat) (unwinding : Bool)
  /-- It has taken the address back everywhere and has to tell the task. -/
  | telling (guard address : Nat) (unwinding : Bool)
  /-- It waits for the task to confirm the release. -/
  | awaitingRelease (task address : Nat) (cause : Cause)
  /-- It waits for the end of the task. -/
  | joining (task address : Nat) (cause : Cause)

/-- A thread that makes and releases guards. -/
structure Owner (σ ρ : Type) where
  /-- The name of the thread. -/
  thread : String
  /-- The commands that it has not begun. -/
  program : List (Command σ ρ)
  /-- The guards that it has made. -/
  guards : List Guard := []
  stage : Stage σ := .idle
  /-- What came of the commands that have ended. -/
  results : List (Result ρ) := []

namespace Shared

variable {σ : Type}

/-- Has a task ended? -/
def hasEnded (p : Shared σ) (i : Nat) : Bool :=
  match p.tasks[i]? with
  | none => true
  | some t =>
    match t.phase with
    | .ended _ => true
    | _ => false

/-- Is a task still to confirm its pin? -/
def isPinOpen (p : Shared σ) (i : Nat) : Bool :=
  p.tasks[i]?.any fun t => t.established.signal = .armed

/-- Is a task still to confirm its release? -/
def isReleaseOpen (p : Shared σ) (i : Nat) : Bool :=
  p.tasks[i]?.any fun t => t.unwound.signal = .armed

end Shared

namespace Owner

variable {σ ρ : Type}

/-- Can the owner take a step? It cannot while it waits, and not after its last
command. -/
def isReady (w : Owner σ ρ) (p : Shared σ) : Bool :=
  match w.stage with
  | .idle => !w.program.isEmpty
  | .awaitingPin i _ _ => !p.isPinOpen i
  | .joiningFailed i _ _ => p.hasEnded i
  | .awaitingRelease i _ _ => !p.isReleaseOpen i
  | .joining i _ _ => p.hasEnded i
  | _ => true

/-- The command that was under way has ended. -/
def finish (w : Owner σ ρ) (r : Result ρ) : Owner σ ρ :=
  { w with stage := .idle, results := w.results ++ [r] }

/-- The owner at another stage. -/
def goTo (w : Owner σ ρ) (stage : Stage σ) : Owner σ ρ := { w with stage }

/-- Runs an action on one of the owner's guards, and goes on with what it has
answered. -/
def onGuard {α : Type} (w : Owner σ ρ) (k : Nat) (x : GuardAction σ α)
    (next : Owner σ ρ → α → Owner σ ρ) : Action Entry (Shared σ) (Owner σ ρ) := fun p =>
  match Holdings.onGuard k x (w.guards, p) with
  | ⟨r, (guards, p), ns⟩ =>
    let w := { w with guards }
    let w := match r with
      | .error e => w.finish (.fault e)
      | .ok none => w.finish .noGuard
      | .ok (some a) => next w a
    ⟨.ok w, p, ns⟩

/-- Begins a command. -/
def begin (w : Owner σ ρ) : Command σ ρ → Action Entry (Shared σ) (Owner σ ρ)
  | .act x => do
    let r ← Action.attempt (Shared.onManaged w.thread x)
    return w.finish (Result.ofExcept .answer r)
  | .pin settings manager prepare cleanup => do
    match ← Action.attempt (Shared.onManaged w.thread prepare) with
    | .error e => return w.finish (.fault e)
    | .ok address => return w.goTo (.launching settings manager address cleanup)
  | .store k slot => w.onGuard k (Guard.store w.thread slot) fun w () => w.finish .done
  | .release k unwinding =>
    match w.guards[k]? with
    | none => return w.finish .noGuard
    | some g =>
      if g.isReleased then return w.finish .done
      else
        w.onGuard k Guard.clearAddress fun w () =>
          w.goTo (.clearingCell k g.address unwinding)

/-- Asks for a task. -/
def launch (w : Owner σ ρ) (settings : TaskSettings) (manager : Manager σ) (address : Nat)
    (cleanup : Action Notice σ Unit) : Action Entry (Shared σ) (Owner σ ρ) := do
  match ← Action.attempt (Shared.launch w.thread settings manager address) with
  | .error e => return w.goTo (.cleaningUp (.error e) cleanup)
  | .ok (.error refusal) =>
    Action.note ⟨w.thread, .notPinned refusal⟩
    return w.goTo (.cleaningUp (.ok (.error refusal)) cleanup)
  | .ok (.ok i) => return w.goTo (.awaitingPin i address cleanup)

/-- Learns whether the pin is confirmed. -/
def passPin (w : Owner σ ρ) (i address : Nat) (cleanup : Action Notice σ Unit) :
    Action Entry (Shared σ) (Owner σ ρ) := do
  match (← Action.read).startOf i with
  | .established i =>
    Action.note ⟨w.thread, .pinned address⟩
    return w.goTo (.cleaningUp (.ok (.ok (Guard.of address i))) cleanup)
  | _ => return w.goTo (.joiningFailed i address cleanup)

/-- Cleans up and ends the command. -/
def cleanUp (w : Owner σ ρ) (made : Except Fault (Except Refusal Guard))
    (cleanup : Action Notice σ Unit) : Action Entry (Shared σ) (Owner σ ρ) := do
  match ← Action.attempt (Shared.onManaged w.thread cleanup), made with
  | .error e, .ok (.ok g) => return w.goTo (.dropping g e)
  | .error e, _ => return w.finish (.fault e)
  | .ok (), .error e => return w.finish (.fault e)
  | .ok (), .ok (.error refusal) => return w.finish (.refused refusal)
  | .ok (), .ok (.ok g) =>
    return { w with guards := w.guards ++ [g] }.finish (.made w.guards.length)

/-- Tells the task of a guard to stop that nobody was given. No cell has its address. -/
def drop (w : Owner σ ρ) (g : Guard) (e : Fault) : Action Entry (Shared σ) (Owner σ ρ) := do
  if g.isReleased then return w.finish (.fault e)
  else
    match g.task with
    | none => return w.finish (.fault (.taskMissing g.address))
    | some i =>
      Action.update fun p => p.tellTask i
      return w.goTo (.awaitingRelease i g.address (.dropped e))

/-- Takes the task out of a guard and tells it to stop. -/
def tell (w : Owner σ ρ) (k address : Nat) (unwinding : Bool) :
    Action Entry (Shared σ) (Owner σ ρ) :=
  w.onGuard k
    (do
      let i ← Guard.takeTask address
      Guard.onShared (Action.update fun p => p.tellTask i)
      return i)
    fun w i => w.goTo (.awaitingRelease i address (.asked k unwinding))

/-- The next step of the owner. -/
def step (w : Owner σ ρ) : Action Entry (Shared σ) (Owner σ ρ) :=
  match w.stage with
  | .idle =>
    match w.program with
    | [] => return w
    | c :: program => { w with program }.begin c
  | .launching settings manager address cleanup => w.launch settings manager address cleanup
  | .awaitingPin i address cleanup => w.passPin i address cleanup
  | .joiningFailed i address cleanup => do
    let e := ((← Action.read).faultOf i).getD (.pinUnconfirmed address)
    return w.goTo (.cleaningUp (.error e) cleanup)
  | .cleaningUp made cleanup => w.cleanUp made cleanup
  | .dropping g e => w.drop g e
  | .clearingCell k address unwinding =>
    w.onGuard k Guard.clearCell fun w () => w.goTo (.telling k address unwinding)
  | .telling k address unwinding => w.tell k address unwinding
  | .awaitingRelease i address cause => return w.goTo (.joining i address cause)
  | .joining i address cause => do
    let r ← Action.attempt (Shared.conclude w.thread cause.unwinding address i)
    return w.finish (cause.result r)

end Owner

/-- Who takes a step. -/
inductive Actor where
  | owner (number : Nat)
  | task (number : Nat)
  deriving DecidableEq, Repr

/-- Owners, their tasks, and what has been reported so far. -/
structure Threads (σ ρ : Type) where
  shared : Shared σ
  owners : List (Owner σ ρ)
  journal : List Entry := []

namespace Threads

variable {σ ρ : Type}

/-- Lets a task take a step. -/
def stepTask (s : Threads σ ρ) (i : Nat) : Option (Threads σ ρ) :=
  match s.shared.tasks[i]? with
  | none => none
  | some t =>
    if t.isReady then
      match Shared.stepTask i s.shared with
      | ⟨_, shared, ns⟩ => some { s with shared, journal := s.journal ++ ns }
    else none

/-- Lets an owner take a step. -/
def stepOwner (s : Threads σ ρ) (i : Nat) : Option (Threads σ ρ) :=
  match s.owners[i]? with
  | none => none
  | some w =>
    if w.isReady s.shared then
      match w.step s.shared with
      | ⟨.ok w, shared, ns⟩ =>
        some { shared, owners := s.owners.set i w, journal := s.journal ++ ns }
      | ⟨.error _, _, _⟩ => none
    else none

/-- Lets an actor take a step, if it can. -/
def step? (s : Threads σ ρ) : Actor → Option (Threads σ ρ)
  | .owner i => s.stepOwner i
  | .task i => s.stepTask i

/-- `t` comes out of `s` by steps of any actors in any order. -/
inductive Reaches : Threads σ ρ → Threads σ ρ → Prop where
  | refl (s : Threads σ ρ) : Reaches s s
  | step {s t u : Threads σ ρ} (a : Actor) (h : s.step? a = some t) (rest : Reaches t u) :
      Reaches s u

/-- Every owner has come to the end of its commands. -/
def IsFinished (s : Threads σ ρ) : Prop :=
  ∀ w ∈ s.owners, w.program = [] ∧ (match w.stage with | .idle => True | _ => False)

end Threads

end PinnedHeap
