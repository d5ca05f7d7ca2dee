/-!
# Gates

A gate is a signal that is given once. It has two ends: the trigger, which
fires the gate or goes away without firing, and the waiter, which waits until
one of the two has happened. Each end can be used once and may be given up.

The trigger is there exactly as long as the gate is armed.
-/

namespace PinnedHeap

/-- What has become of the trigger of a gate. -/
inductive Signal where
  /-- It is still there. -/
  | armed
  /-- It has fired the gate. -/
  | fired
  /-- It has gone away without firing. -/
  | abandoned
  deriving DecidableEq, Repr

/-- A gate: its signal, and whether the waiter is still there. -/
structure Gate where
  signal : Signal := .armed
  waiter : Bool := true
  deriving DecidableEq, Repr

/-- What comes of waiting at a gate. -/
inductive Wait where
  /-- The waiter has been used or given up before. -/
  | noWaiter
  /-- Nothing has happened yet. -/
  | blocked
  /-- The gate has fired; the waiter is used up. -/
  | passed (gate : Gate)
  /-- The gate never will fire; the waiter is used up. -/
  | abandoned (gate : Gate)
  deriving DecidableEq, Repr

namespace Gate

/-- The wording of the failure to get through a gate whose trigger is gone. -/
def abandonedMessage : String := "signal gate abandoned before it fired"

/-- A gate with both ends. -/
def arm : Gate := {}

/-- Fires the gate, whether or not anyone still waits. -/
def fire? (g : Gate) : Option Gate :=
  if g.signal = .armed then some { g with signal := .fired } else none

/-- Gives the trigger up. -/
def abandon? (g : Gate) : Option Gate :=
  if g.signal = .armed then some { g with signal := .abandoned } else none

/-- Gives the waiter up. -/
def leave? (g : Gate) : Option Gate :=
  if g.waiter then some { g with waiter := false } else none

/-- Has the gate fired? Only the waiter can tell. -/
def isFired? (g : Gate) : Option Bool :=
  if g.waiter then some (g.signal = .fired) else none

/-- Uses the waiter, if there is one and it need not wait. -/
def wait (g : Gate) : Wait :=
  if g.waiter then
    match g.signal with
    | .armed => .blocked
    | .fired => .passed { g with waiter := false }
    | .abandoned => .abandoned { g with waiter := false }
  else .noWaiter

/-- The gate after its trigger has fired, if it was there. -/
def fire (g : Gate) : Gate := g.fire?.getD g

/-- The gate after its trigger has gone away, if it was there. -/
def abandon (g : Gate) : Gate := g.abandon?.getD g

@[simp] theorem fire_arm : arm.fire = { signal := .fired } := rfl

@[simp] theorem abandon_arm : arm.abandon = { signal := .abandoned } := rfl

/-- A gate does not fire twice, and does not fire after it was abandoned. -/
theorem fire?_eq_none {g : Gate} : g.fire? = none ↔ g.signal ≠ .armed := by
  simp [fire?]

/-- Waiting ends as soon as the gate is not armed any longer. -/
theorem wait_eq_blocked {g : Gate} :
    g.wait = .blocked ↔ g.waiter = true ∧ g.signal = .armed := by
  obtain ⟨s, w⟩ := g
  cases w <;> cases s <;> simp [wait]

end Gate

end PinnedHeap
