import PinnedHeap.Action
import PinnedHeap.Log.Event

/-!
# The logger

The threshold in force, and the records of the events that pass it. The logger
sets itself up once, when it is first needed: at that moment a threshold that
the environment names replaces the one in force.
-/

namespace PinnedHeap.Log

/-- The environment variable that names a threshold. -/
def variableName : String := "PTRGUARD_LOG"

/-- What is shown of an event. How that makes up a line is not for this module to say. -/
structure Record where
  level : Level
  /-- The name of the thread. -/
  thread : String
  /-- What is written for the event. -/
  text : String
  deriving DecidableEq, Repr

/-- The logger of one process. -/
structure Logger where
  /-- What the environment variable holds, if it is set and holds text. -/
  environment : Option String
  /-- Has the logger been set up? -/
  ready : Bool
  /-- The threshold in force. -/
  threshold : Nat
  deriving DecidableEq, Repr

namespace Logger

/-- The logger of a process that starts. -/
def start (environment : Option String) : Logger :=
  ⟨environment, false, Threshold.standard⟩

/-- The threshold that the environment names. -/
def named? (l : Logger) : Option Nat := l.environment.bind Threshold.parse?

/-- Sets the logger up, unless that has been done. -/
def setUp (l : Logger) : Logger :=
  if l.ready then l else { l with ready := true, threshold := l.named?.getD l.threshold }

/-- Sets the threshold in force. -/
def setThreshold (l : Logger) (threshold : Nat) : Logger := { l with threshold := threshold }

/-- Would an event with this threshold be shown now? -/
def enabled (l : Logger) (threshold : Nat) : Bool := threshold ≤ l.threshold

/-- The record of an event on a thread. -/
def record (thread : String) (event : Event) : Record where
  level := event.level
  thread
  text := event.render

/-- Takes an event from a thread, on a logger that is set up if it was not. -/
def emit (thread : String) (event : Event) : Action Record Logger Unit := do
  Action.update setUp
  let l ← Action.read
  if ← Action.ofExcept (event.passes l.threshold) then
    Action.note (record thread event)

/-- Takes events one after the other. -/
def emitAll : List (String × Event) → Action Record Logger Unit
  | [] => pure ()
  | (thread, event) :: rest => do
    emit thread event
    emitAll rest

end Logger

end PinnedHeap.Log
