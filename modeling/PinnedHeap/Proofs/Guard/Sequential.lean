import PinnedHeap.Proofs.Guard.Exits

/-!
# The sequential reading

What commands to guards come to if tasks and gates are left out. A pin is made
by retaining the address: the manager is called, then it is reported that the
address is retained, then that it is pinned. It is released by giving the
address back: the manager is called, then it is reported that the address is
given back, then that the pin is released. `Sequential.runAll` carries commands
out in that way, one after the other.

`PinnedHeap.Proofs.Guard.Agreement` compares it with `Command.runAll`, and
`PinnedHeap.Proofs.Guard.Scheduling` with what owner and tasks do side by side.
-/

namespace PinnedHeap

variable {σ ρ : Type}

/-- A pin: a guard that needs no task. -/
structure Pin (σ : Type) where
  /-- The pinned address, or zero once the pin is released. -/
  address : Nat
  /-- The slot that the address was published through, until it is cleared. -/
  slot : Option Slot := none
  /-- Has a slot ever been bound? -/
  bound : Bool := false
  /-- The name of the thread that holds the address. -/
  thread : String
  manager : Manager σ

/-- What commands act on if there are no tasks. -/
structure Sequential (σ : Type) where
  /-- The state of the memory managers. -/
  managed : σ
  /-- Foreign memory. -/
  cells : Cells
  /-- How many pins count as holding an address. -/
  holding : Nat
  /-- Why the operating system does not start a thread, if it does not. -/
  refusal : TaskSettings → Option String
  /-- The pins that were made, released ones included. -/
  pins : List (Pin σ)

namespace Sequential

/-- What the threads share, with pins in place of tasks. -/
def of (p : Shared σ) (pins : List (Pin σ)) : Sequential σ where
  managed := p.managed
  cells := p.cells
  holding := p.holding
  refusal := p.refusal
  pins

/-- The managed state as a part of the whole. -/
def managedPlace : Place (Sequential σ) σ where
  get s := s.managed
  set m s := { s with managed := m }

/-- Runs an action on the managed state, on a thread. -/
def onManaged {α : Type} (thread : String) (x : Action Notice σ α) :
    Action Entry (Sequential σ) α :=
  Action.mapNotices (Entry.mk thread) (Action.within managedPlace x)

/-- Pins an address. -/
def construct (owner : String) (settings : TaskSettings) (manager : Manager σ) (a : Nat) :
    Action Entry (Sequential σ) (Except Refusal (Pin σ)) := do
  Action.require ('\x00' ∉ settings.name.toList) (.nullInName settings.name)
  match (← Action.read).refusal settings with
  | some reason =>
    onManaged owner manager.close
    Action.note ⟨owner, .notPinned ⟨a, reason⟩⟩
    return .error ⟨a, reason⟩
  | none =>
    onManaged settings.name (manager.retain settings.name a)
    Action.update fun s => { s with holding := s.holding + 1 }
    Action.note ⟨settings.name, .taskRetained manager.name a⟩
    Action.note ⟨owner, .pinned a⟩
    return .ok { address := a, thread := settings.name, manager }

/-- Gives the address of a pin back. -/
def giveBack (owner : String) (unwinding : Bool) (x : Pin σ) :
    Action Entry (Sequential σ) Unit := do
  match ← Action.attempt (onManaged x.thread (x.manager.unretain x.thread x.address)) with
  | .error e =>
    if unwinding then Action.note ⟨owner, .failedDuringUnwind x.address⟩ else Action.fail e
  | .ok () =>
    Action.update fun s => { s with holding := s.holding - 1 }
    Action.note ⟨x.thread, .taskUnretained x.manager.name x.address⟩
    match ← Action.attempt (onManaged x.thread x.manager.close) with
    | .error _ => Action.note ⟨owner, .failedAfterRelease x.address⟩
    | .ok () => pure ()
    Action.note ⟨owner, .released x.address⟩

/-- Releases a new pin that nobody was given, on a thread that is failing. -/
def drop (owner : String) (x : Pin σ) : Action Entry (Sequential σ) Unit :=
  if x.address = 0 then pure () else giveBack owner true x

/-- What comes of a pin once cleaning up has ended. If that has failed, a pin that was made is
dropped. -/
def handOver (owner : String) (made : Except Fault (Except Refusal (Pin σ))) :
    Except Fault Unit → Action Entry (Sequential σ) (Except Refusal (Pin σ))
  | .ok () => Action.ofExcept made
  | .error e => do
    match made with
    | .ok (.ok x) => drop owner x
    | _ => pure ()
    Action.fail e

/-- Pins the address that `prepare` finds. Whatever came of it, `cleanup` follows. -/
def constructBetween (owner : String) (settings : TaskSettings) (manager : Manager σ)
    (prepare : Action Notice σ Nat) (cleanup : Action Notice σ Unit) :
    Action Entry (Sequential σ) (Except Refusal (Pin σ)) := do
  let a ← onManaged owner prepare
  let made ← Action.attempt (construct owner settings manager a)
  handOver owner made (← Action.attempt (onManaged owner cleanup))

/-- Takes a new pin in, and answers its number. -/
def keep (x : Pin σ) : Action Entry (Sequential σ) Nat := do
  let s ← Action.read
  Action.update fun s => { s with pins := s.pins ++ [x] }
  return s.pins.length

/-- Publishes the address of pin `k` through a slot. -/
def store (owner : String) (k : Nat) (slot : Slot) (x : Pin σ) :
    Action Entry (Sequential σ) Unit := do
  Action.require (x.bound = false) (.alreadyBound x.address)
  if x.address = 0 then return ()
  else
    Action.update fun s =>
      { s with
        cells := slot.write x.address s.cells
        pins := s.pins.set k { x with bound := true, slot := some slot } }
    Action.note ⟨owner, .published x.address slot.address⟩

/-- Releases pin `k`. -/
def release (owner : String) (k : Nat) (unwinding : Bool) (x : Pin σ) :
    Action Entry (Sequential σ) Unit := do
  if x.address = 0 then return ()
  else
    Action.update fun s =>
      { s with
        cells := s.cells.takeBack x.slot
        pins := s.pins.set k { x with address := 0, slot := none } }
    giveBack owner unwinding x

/-- Runs an action on one of the pins, if there is one with that number. -/
def onPin (k : Nat) (x : Pin σ → Action Entry (Sequential σ) Unit) :
    Action Entry (Sequential σ) (Result ρ) := do
  match (← Action.read).pins[k]? with
  | none => return .noGuard
  | some pin => return Result.ofExcept (fun _ => .done) (← Action.attempt (x pin))

/-- Carries out a command. -/
def run (owner : String) : Command σ ρ → Action Entry (Sequential σ) (Result ρ)
  | .act x => do return Result.ofExcept .answer (← Action.attempt (onManaged owner x))
  | .pin settings manager prepare cleanup => do
    match ← Action.attempt (constructBetween owner settings manager prepare cleanup) with
    | .error e => return .fault e
    | .ok (.error refusal) => return .refused refusal
    | .ok (.ok x) => return .made (← keep x)
  | .store k slot => onPin k (store owner k slot)
  | .release k unwinding => onPin k (release owner k unwinding)

/-- Carries out commands, one after the other. -/
def runAll (owner : String) : List (Command σ ρ) → Action Entry (Sequential σ) (List (Result ρ))
  | [] => return []
  | c :: cs => do
    let r ← run owner c
    let rs ← runAll owner cs
    return r :: rs

theorem run_onManaged {α : Type} (thread : String) (x : Action Notice σ α) (s : Sequential σ) :
    (onManaged thread x).run s =
      ⟨(x.run s.managed).answer, { s with managed := (x.run s.managed).state },
        (x.run s.managed).notices.map (Entry.mk thread)⟩ := rfl

/-- The address is found first, and there is a clean-up last, whatever came of the pin. -/
theorem run_constructBetween {owner : String} {settings : TaskSettings} {manager : Manager σ}
    {prepare : Action Notice σ Nat} {cleanup : Action Notice σ Unit} {s t : Sequential σ} {a : Nat}
    {m m' : σ} {ls ls' : List Notice} {c : Except Fault Unit} {t' : Sequential σ}
    {made made' : Except Fault (Except Refusal (Pin σ))} {ns ns' : List Entry}
    (hprepare : prepare.run s.managed = ⟨.ok a, m, ls⟩)
    (hmade : (construct owner settings manager a).run { s with managed := m } = ⟨made, t, ns⟩)
    (hclean : cleanup.run t.managed = ⟨c, m', ls'⟩)
    (hover : (handOver owner made c).run { t with managed := m' } = ⟨made', t', ns'⟩) :
    (constructBetween owner settings manager prepare cleanup).run s =
      ⟨made', t', ls.map (Entry.mk owner) ++ (ns ++ (ls'.map (Entry.mk owner) ++ ns'))⟩ := by
  simp only [constructBetween, Action.run_bind, Action.run_attempt, run_onManaged, hprepare, hmade,
    hclean, hover]

/-- Where no address is found, there is nothing to clean up. -/
theorem run_constructBetween_of_error {owner : String} {settings : TaskSettings}
    {manager : Manager σ} {prepare : Action Notice σ Nat} {cleanup : Action Notice σ Unit}
    {s : Sequential σ} {m : σ} {ls : List Notice} {e : Fault}
    (hprepare : prepare.run s.managed = ⟨.error e, m, ls⟩) :
    (constructBetween owner settings manager prepare cleanup).run s =
      ⟨.error e, { s with managed := m }, ls.map (Entry.mk owner)⟩ := by
  simp only [constructBetween, Action.run_bind, run_onManaged, hprepare]

theorem run_onPin_none {k : Nat} {s : Sequential σ} (y : Pin σ → Action Entry (Sequential σ) Unit)
    (hz : s.pins[k]? = none) :
    (onPin k y : Action Entry (Sequential σ) (Result ρ)).run s = ⟨.ok .noGuard, s, []⟩ := by
  simp only [onPin, Action.run_bind, Action.run_read, hz, Action.run_pure, List.append_nil]

theorem run_onPin {k : Nat} {s s' : Sequential σ} {z : Pin σ} {r : Except Fault Unit}
    {ns : List Entry} (y : Pin σ → Action Entry (Sequential σ) Unit) (hz : s.pins[k]? = some z)
    (hy : (y z).run s = ⟨r, s', ns⟩) :
    (onPin k y : Action Entry (Sequential σ) (Result ρ)).run s =
      ⟨.ok (.ofExcept (fun _ => .done) r), s', ns⟩ := by
  simp only [onPin, Action.run_bind, Action.run_read, hz, Action.run_attempt, hy, Action.run_pure,
    List.append_nil, List.nil_append]

/-- An address that the manager does not take back. -/
theorem run_giveBack_of_error {owner : String} {unwinding : Bool} {z : Pin σ} {m : σ} {e : Fault}
    {ls : List Notice} {s : Sequential σ}
    (hm : (z.manager.unretain z.thread z.address).run s.managed = ⟨.error e, m, ls⟩) :
    (giveBack owner unwinding z).run s =
      ⟨if unwinding then .ok () else .error e, { s with managed := m },
        ls.map (Entry.mk z.thread) ++
          if unwinding then [⟨owner, .failedDuringUnwind z.address⟩] else []⟩ := by
  simp only [giveBack, Action.run_bind, Action.run_attempt, run_onManaged, hm]
  cases unwinding <;> simp [Action.run_note, Action.run_fail]

/-- An address that the manager takes back. -/
theorem run_giveBack_of_ok {owner : String} {unwinding : Bool} {z : Pin σ} {m m' : σ}
    {r : Except Fault Unit} {ls ls' : List Notice} {s : Sequential σ}
    (hm : (z.manager.unretain z.thread z.address).run s.managed = ⟨.ok (), m, ls⟩)
    (hc : z.manager.close.run m = ⟨r, m', ls'⟩) :
    (giveBack owner unwinding z).run s =
      ⟨.ok (), { s with managed := m', holding := s.holding - 1 },
        ls.map (Entry.mk z.thread) ++
          ⟨z.thread, .taskUnretained z.manager.name z.address⟩ :: (ls'.map (Entry.mk z.thread) ++
            (match r with
              | .ok () => [⟨owner, .released z.address⟩]
              | .error _ =>
                [⟨owner, .failedAfterRelease z.address⟩, ⟨owner, .released z.address⟩]))⟩ := by
  simp only [giveBack, Action.run_bind, Action.run_update, Action.run_attempt, run_onManaged, hm,
    hc, Action.run_note, List.nil_append]
  cases r <;>
    simp only [Action.run_bind, Action.run_note, List.cons_append, List.nil_append]

theorem run_release {owner : String} {k : Nat} {unwinding : Bool} {z : Pin σ} {s s' : Sequential σ}
    {r : Except Fault Unit} {ns : List Entry} (ha : z.address ≠ 0)
    (h : (giveBack owner unwinding z).run
      { s with
        cells := s.cells.takeBack z.slot
        pins := s.pins.set k { z with address := 0, slot := none } } = ⟨r, s', ns⟩) :
    (release owner k unwinding z).run s = ⟨r, s', ns⟩ := by
  simp only [release, ha, if_false, Action.run_bind, Action.run_update, h, List.nil_append]

end Sequential

end PinnedHeap
