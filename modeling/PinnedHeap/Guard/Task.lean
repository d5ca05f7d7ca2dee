import PinnedHeap.Gate
import PinnedHeap.Guard.Manager

/-!
# Pinning tasks

A pinning task holds one address for one guard, on a thread of its own. It
retains the address and confirms that; then it waits until it is told to stop,
or until nobody is left to tell it; then it gives the address back and
confirms that too.

```
   owner                                      task
   starts the task   ─────────────────────▶   retain
   passes `established`   ◀────────────────   fires `established`
   ...                                        waits at `terminate`
   fires `terminate`   ───────────────────▶   unretain
   passes `unwound`   ◀────────────────────   fires `unwound`
   joins the task   ◀──────────────────────   ends
```

A task is a value with a phase. A fault of the manager ends the task where it
stands; the gates that the task has not fired by then are abandoned.
-/

namespace PinnedHeap

/-- How a pinning task is started. -/
structure TaskSettings where
  /-- The name of the task's thread. -/
  name : String := "ptrguard-pin"
  /-- The size of the stack of the task's thread. -/
  stackSize : Nat := 256 * 1024
  deriving DecidableEq, Repr

/-- The text of task settings. -/
def TaskSettings.text (s : TaskSettings) : String :=
  Text.record "GuardConfig" [
    ("task_name", Text.quoted s.name), ("task_stack_size", toString s.stackSize)]

/-- What a pinning task does next. -/
inductive Phase where
  /-- Retain the address. -/
  | retain
  /-- Count itself as a task that holds a retain. -/
  | countIn
  /-- Report that the address is retained. -/
  | reportRetained
  /-- Fire `established`. -/
  | confirmPin
  /-- Wait at `terminate`. -/
  | await
  /-- Report that the guard is gone. -/
  | reportVanished
  /-- Give the address back. -/
  | unretain
  /-- Count itself out. -/
  | countOut
  /-- Report that the address is given back. -/
  | reportUnretained
  /-- Fire `unwound`. -/
  | confirmRelease
  /-- Let go of the manager. -/
  | close
  /-- Nothing: the task has ended, by a fault or without one. -/
  | ended (fault : Option Fault)
  deriving DecidableEq, Repr

/-- At most so many steps are left. -/
def Phase.stepsLeft : Phase → Nat
  | retain => 11
  | countIn => 10
  | reportRetained => 9
  | confirmPin => 8
  | await => 7
  | reportVanished => 6
  | unretain => 5
  | countOut => 4
  | reportUnretained => 3
  | confirmRelease => 2
  | close => 1
  | ended _ => 0

/-- A pinning task. Each of its gates is waited at by one side and once only, so nothing
is kept of the waiters: the phase of the task, and what its owner is in the middle of,
say who still waits. -/
structure Task (σ : Type) where
  /-- The name of its thread. -/
  thread : String
  /-- The address that it holds. -/
  address : Nat
  manager : Manager σ
  phase : Phase := .retain
  /-- Fired by the task when the address is retained. -/
  established : Gate := .arm
  /-- Fired by the owner when the address is to be given back. -/
  terminate : Gate := .arm
  /-- Fired by the task when the address is given back. -/
  unwound : Gate := .arm

namespace Task

variable {σ : Type}

/-- Can the task take a step? It cannot while it waits at a gate that is armed, and
not after its end. -/
def isReady (t : Task σ) : Bool :=
  match t.phase with
  | .await => t.terminate.signal ≠ .armed
  | .ended _ => false
  | _ => true

/-- The task, ended by a fault. -/
def failed (t : Task σ) (e : Fault) : Task σ :=
  { t with
    phase := .ended (some e)
    established := t.established.abandon
    unwound := t.unwound.abandon }

/-- The fault that ended the task. -/
def fault? (t : Task σ) : Option Fault :=
  match t.phase with
  | .ended e => e
  | _ => none

end Task

end PinnedHeap
