import PinnedHeap.Guard.Interleaving

/-!
# The steps of owners and tasks

`Owner.Steps` lists the steps of an owner, stage by stage, and `Task.Steps`
those of a task, phase by phase. Every step of `Threads` is one of them
(`Threads.step?_cases`), so what is to hold in every reachable state is proved
by going through the two lists.
-/

namespace PinnedHeap

variable {σ ρ : Type}

namespace Owner

/-- A step of an owner, with what the threads share before and after it. -/
inductive Steps (w : Owner σ ρ) (p : Shared σ) : Owner σ ρ → Shared σ → Prop where
  -- a command begins
  | act {x : Action Notice σ ρ} {program : List (Command σ ρ)} (hs : w.stage = .idle)
      (hp : w.program = .act x :: program) :
      Steps w p ({ w with program }.finish (.ofExcept .answer (x.run p.managed).answer))
        { p with managed := (x.run p.managed).state }
  | prepareFails {settings : TaskSettings} {manager : Manager σ} {prepare : Action Notice σ Nat}
      {cleanup : Action Notice σ Unit} {program : List (Command σ ρ)} {e : Fault}
      (hs : w.stage = .idle) (hp : w.program = .pin settings manager prepare cleanup :: program)
      (he : (prepare.run p.managed).answer = .error e) :
      Steps w p ({ w with program }.finish (.fault e))
        { p with managed := (prepare.run p.managed).state }
  | prepare {settings : TaskSettings} {manager : Manager σ} {prepare : Action Notice σ Nat}
      {cleanup : Action Notice σ Unit} {program : List (Command σ ρ)} {address : Nat}
      (hs : w.stage = .idle) (hp : w.program = .pin settings manager prepare cleanup :: program)
      (ha : (prepare.run p.managed).answer = .ok address) :
      Steps w p ({ w with program }.goTo (.launching settings manager address cleanup))
        { p with managed := (prepare.run p.managed).state }
  | storeNone {k : Nat} {slot : Slot} {program : List (Command σ ρ)} (hs : w.stage = .idle)
      (hp : w.program = .store k slot :: program) (hg : w.guards[k]? = none) :
      Steps w p ({ w with program }.finish .noGuard) p
  | storeBound {k : Nat} {slot : Slot} {program : List (Command σ ρ)} {g : Guard}
      (hs : w.stage = .idle) (hp : w.program = .store k slot :: program)
      (hg : w.guards[k]? = some g) (hb : g.bound = true) :
      Steps w p ({ w with program }.finish (.fault (.alreadyBound g.address))) p
  | storeReleased {k : Nat} {slot : Slot} {program : List (Command σ ρ)} {g : Guard}
      (hs : w.stage = .idle) (hp : w.program = .store k slot :: program)
      (hg : w.guards[k]? = some g) (hb : g.bound = false) (ha : g.address = 0) :
      Steps w p ({ w with program }.finish .done) p
  | store {k : Nat} {slot : Slot} {program : List (Command σ ρ)} {g : Guard}
      (hs : w.stage = .idle) (hp : w.program = .store k slot :: program)
      (hg : w.guards[k]? = some g) (hb : g.bound = false) (ha : g.address ≠ 0) :
      Steps w p
        ({ w with program, guards := w.guards.set k { g with bound := true, slot := some slot } }.finish
          .done)
        { p with cells := slot.write g.address p.cells }
  | releaseNone {k : Nat} {unwinding : Bool} {program : List (Command σ ρ)} (hs : w.stage = .idle)
      (hp : w.program = .release k unwinding :: program) (hg : w.guards[k]? = none) :
      Steps w p ({ w with program }.finish .noGuard) p
  | releaseAgain {k : Nat} {unwinding : Bool} {program : List (Command σ ρ)} {g : Guard}
      (hs : w.stage = .idle) (hp : w.program = .release k unwinding :: program)
      (hg : w.guards[k]? = some g) (ha : g.address = 0) :
      Steps w p ({ w with program }.finish .done) p
  | release {k : Nat} {unwinding : Bool} {program : List (Command σ ρ)} {g : Guard}
      (hs : w.stage = .idle) (hp : w.program = .release k unwinding :: program)
      (hg : w.guards[k]? = some g) (ha : g.address ≠ 0) :
      Steps w p
        ({ w with program, guards := w.guards.set k { g with address := 0 } }.goTo
          (.clearingCell k g.address unwinding)) p
  -- a guard is made
  | launchFails {settings : TaskSettings} {manager : Manager σ} {address : Nat}
      {cleanup : Action Notice σ Unit} (hs : w.stage = .launching settings manager address cleanup)
      (hn : '\x00' ∈ settings.name.toList) :
      Steps w p (w.goTo (.cleaningUp (.error (.nullInName settings.name)) cleanup)) p
  | launchRefused {settings : TaskSettings} {manager : Manager σ} {address : Nat}
      {cleanup : Action Notice σ Unit} {reason : String}
      (hs : w.stage = .launching settings manager address cleanup)
      (hr : p.refusal settings = some reason)
      (hc : (manager.close.run p.managed).answer = .ok ()) :
      Steps w p (w.goTo (.cleaningUp (.ok (.error ⟨address, reason⟩)) cleanup))
        { p with managed := (manager.close.run p.managed).state }
  | launchCloseFails {settings : TaskSettings} {manager : Manager σ} {address : Nat}
      {cleanup : Action Notice σ Unit} {reason : String} {e : Fault}
      (hs : w.stage = .launching settings manager address cleanup)
      (hr : p.refusal settings = some reason)
      (hc : (manager.close.run p.managed).answer = .error e) :
      Steps w p (w.goTo (.cleaningUp (.error e) cleanup))
        { p with managed := (manager.close.run p.managed).state }
  | launch {settings : TaskSettings} {manager : Manager σ} {address : Nat}
      {cleanup : Action Notice σ Unit} (hs : w.stage = .launching settings manager address cleanup)
      (hr : p.refusal settings = none) :
      Steps w p (w.goTo (.awaitingPin p.tasks.length address cleanup))
        { p with tasks := p.tasks ++ [{ thread := settings.name, address, manager }] }
  | passPin {i address : Nat} {cleanup : Action Notice σ Unit} {t : Task σ}
      (hs : w.stage = .awaitingPin i address cleanup) (ht : p.tasks[i]? = some t)
      (hf : t.established.signal = .fired) :
      Steps w p (w.goTo (.cleaningUp (.ok (.ok (.of address i))) cleanup)) p
  | missPin {i address : Nat} {cleanup : Action Notice σ Unit}
      (hs : w.stage = .awaitingPin i address cleanup)
      (ht : ∀ t, p.tasks[i]? = some t → t.established.signal = .abandoned) :
      Steps w p (w.goTo (.joiningFailed i address cleanup)) p
  | joinFailed {i address : Nat} {cleanup : Action Notice σ Unit}
      (hs : w.stage = .joiningFailed i address cleanup) (he : p.hasEnded i = true) :
      Steps w p
        (w.goTo (.cleaningUp (.error ((p.faultOf i).getD (.pinUnconfirmed address))) cleanup)) p
  | cleanUpFails {made : Except Fault (Except Refusal Guard)} {cleanup : Action Notice σ Unit}
      {e : Fault} (hs : w.stage = .cleaningUp made cleanup) (hm : ∀ g, made ≠ .ok (.ok g))
      (he : (cleanup.run p.managed).answer = .error e) :
      Steps w p (w.finish (.fault e)) { p with managed := (cleanup.run p.managed).state }
  | notMade {cleanup : Action Notice σ Unit} {e : Fault}
      (hs : w.stage = .cleaningUp (.error e) cleanup)
      (hc : (cleanup.run p.managed).answer = .ok ()) :
      Steps w p (w.finish (.fault e)) { p with managed := (cleanup.run p.managed).state }
  | refused {cleanup : Action Notice σ Unit} {refusal : Refusal}
      (hs : w.stage = .cleaningUp (.ok (.error refusal)) cleanup)
      (hc : (cleanup.run p.managed).answer = .ok ()) :
      Steps w p (w.finish (.refused refusal)) { p with managed := (cleanup.run p.managed).state }
  | made {cleanup : Action Notice σ Unit} {g : Guard}
      (hs : w.stage = .cleaningUp (.ok (.ok g)) cleanup)
      (hc : (cleanup.run p.managed).answer = .ok ()) :
      Steps w p ({ w with guards := w.guards ++ [g] }.finish (.made w.guards.length))
        { p with managed := (cleanup.run p.managed).state }
  -- a guard is dropped
  | cleanUpDrops {cleanup : Action Notice σ Unit} {g : Guard} {e : Fault}
      (hs : w.stage = .cleaningUp (.ok (.ok g)) cleanup)
      (he : (cleanup.run p.managed).answer = .error e) :
      Steps w p (w.goTo (.dropping g e)) { p with managed := (cleanup.run p.managed).state }
  | dropReleased {g : Guard} {e : Fault} (hs : w.stage = .dropping g e) (ha : g.address = 0) :
      Steps w p (w.finish (.fault e)) p
  | dropNobody {g : Guard} {e : Fault} (hs : w.stage = .dropping g e) (ha : g.address ≠ 0)
      (ht : g.task = none) : Steps w p (w.finish (.fault (.taskMissing g.address))) p
  | drop {g : Guard} {e : Fault} {i : Nat} (hs : w.stage = .dropping g e) (ha : g.address ≠ 0)
      (ht : g.task = some i) :
      Steps w p (w.goTo (.awaitingRelease i g.address (.dropped e))) (p.tellTask i)
  -- a guard is released
  | clearNone {k address : Nat} {unwinding : Bool}
      (hs : w.stage = .clearingCell k address unwinding) (hg : w.guards[k]? = none) :
      Steps w p (w.finish .noGuard) p
  | clearUnbound {k address : Nat} {unwinding : Bool} {g : Guard}
      (hs : w.stage = .clearingCell k address unwinding) (hg : w.guards[k]? = some g)
      (hslot : g.slot = none) :
      Steps w p (w.goTo (.telling k address unwinding)) p
  | clear {k address : Nat} {unwinding : Bool} {g : Guard} {slot : Slot}
      (hs : w.stage = .clearingCell k address unwinding) (hg : w.guards[k]? = some g)
      (hslot : g.slot = some slot) :
      Steps w p
        ({ w with guards := w.guards.set k { g with slot := none } }.goTo
          (.telling k address unwinding))
        { p with cells := slot.write 0 p.cells }
  | tellNone {k address : Nat} {unwinding : Bool}
      (hs : w.stage = .telling k address unwinding) (hg : w.guards[k]? = none) :
      Steps w p (w.finish .noGuard) p
  | tellNobody {k address : Nat} {unwinding : Bool} {g : Guard}
      (hs : w.stage = .telling k address unwinding) (hg : w.guards[k]? = some g)
      (ht : g.task = none) :
      Steps w p (w.finish (.fault (.taskMissing address))) p
  | tell {k address : Nat} {unwinding : Bool} {g : Guard} {i : Nat}
      (hs : w.stage = .telling k address unwinding) (hg : w.guards[k]? = some g)
      (ht : g.task = some i) :
      Steps w p
        ({ w with guards := w.guards.set k { g with task := none } }.goTo
          (.awaitingRelease i address (.asked k unwinding))) (p.tellTask i)
  -- its task ends
  | passRelease {i address : Nat} {cause : Cause}
      (hs : w.stage = .awaitingRelease i address cause) (hr : p.isReleaseOpen i = false) :
      Steps w p (w.goTo (.joining i address cause)) p
  | join {i address : Nat} {cause : Cause} (hs : w.stage = .joining i address cause)
      (he : p.hasEnded i = true) :
      Steps w p
        (w.finish (cause.result
          ((Shared.conclude w.thread cause.unwinding address i).run p).answer)) p

/-! ## Running an owner -/

/-- The action ends with one of the owner's steps. -/
def IsStep (w : Owner σ ρ) (p : Shared σ) (x : Action Entry (Shared σ) (Owner σ ρ)) : Prop :=
  ∃ w' p' ns, x.run p = ⟨.ok w', p', ns⟩ ∧ Steps w p w' p'

variable {w : Owner σ ρ} {p : Shared σ}

theorem run_onManaged {α : Type} (thread : String) (x : Action Notice σ α) (p : Shared σ) :
    (Shared.onManaged thread x).run p =
      ⟨(x.run p.managed).answer, { p with managed := (x.run p.managed).state },
        (x.run p.managed).notices.map (Entry.mk thread)⟩ := rfl

theorem set_self {α : Type} {x : α} {k : Nat} {l : List α} (hx : l[k]? = some x) :
    l.set k x = l := by
  obtain ⟨hk, rfl⟩ := List.getElem?_eq_some_iff.1 hx
  exact List.set_getElem_self hk

theorem run_onGuard_none {α : Type} {k : Nat} (x : GuardAction σ α)
    (next : Owner σ ρ → α → Owner σ ρ) (hg : w.guards[k]? = none) :
    (w.onGuard k x next).run p = ⟨.ok (w.finish .noGuard), p, []⟩ := by
  simp only [Action.run, onGuard, Holdings.onGuard, hg]

theorem run_onGuard {α : Type} {k : Nat} {g g' : Guard} {a : α} {p' : Shared σ} {ns : List Entry}
    (x : GuardAction σ α) (next : Owner σ ρ → α → Owner σ ρ) (hg : w.guards[k]? = some g)
    (hx : x.run (g, p) = ⟨.ok a, (g', p'), ns⟩) :
    (w.onGuard k x next).run p = ⟨.ok (next { w with guards := w.guards.set k g' } a), p', ns⟩ := by
  simp only [Action.run] at hx
  simp only [Action.run, onGuard, Holdings.onGuard, hg, hx]
  rfl

theorem run_onGuard_of_error {α : Type} {k : Nat} {g : Guard} {e : Fault} {ns : List Entry}
    (x : GuardAction σ α) (next : Owner σ ρ → α → Owner σ ρ) (hg : w.guards[k]? = some g)
    (hx : x.run (g, p) = ⟨.error e, (g, p), ns⟩) :
    (w.onGuard k x next).run p = ⟨.ok (w.finish (.fault e)), p, ns⟩ := by
  simp only [Action.run] at hx
  simp only [Action.run, onGuard, Holdings.onGuard, hg, hx, set_self hg]
  rfl

/-! ### Storing -/

theorem run_store_bound {thread : String} {slot : Slot} {g : Guard} (hb : g.bound = true) :
    (Guard.store thread slot).run (g, p) = ⟨.error (.alreadyBound g.address), (g, p), []⟩ := by
  simp only [Guard.store, Guard.current, Action.run_bind, Action.run_read, Action.run_pure,
    Action.run_require, hb]
  rfl

theorem run_store_released {thread : String} {slot : Slot} {g : Guard} (hb : g.bound = false)
    (ha : g.address = 0) : (Guard.store thread slot).run (g, p) = ⟨.ok (), (g, p), []⟩ := by
  have hr : g.isReleased = true := beq_iff_eq.2 ha
  simp only [Guard.store, Guard.current, Action.run_bind, Action.run_read, Action.run_pure,
    Action.run_require, hb, if_true, hr, List.nil_append]

theorem run_store {thread : String} {slot : Slot} {g : Guard} (hb : g.bound = false)
    (ha : g.address ≠ 0) :
    ∃ ns, (Guard.store thread slot).run (g, p) =
      ⟨.ok (), ({ g with bound := true, slot := some slot },
        { p with cells := slot.write g.address p.cells }), ns⟩ := by
  have hr : g.isReleased = false := beq_eq_false_iff_ne.2 ha
  simp only [Guard.store, Guard.current, Action.run_bind, Action.run_read, Action.run_pure,
    Action.run_require, hb, if_true, hr]
  exact ⟨_, rfl⟩

theorem isStep_store {k : Nat} {slot : Slot} {program : List (Command σ ρ)}
    (hs : w.stage = .idle) (hp : w.program = .store k slot :: program) :
    IsStep w p (({ w with program } : Owner σ ρ).begin (.store k slot)) := by
  simp only [IsStep, begin]
  cases hg : w.guards[k]? with
  | none => exact ⟨_, _, _, run_onGuard_none _ _ hg, .storeNone hs hp hg⟩
  | some g =>
    cases hb : g.bound with
    | true =>
      exact ⟨_, _, _, run_onGuard_of_error _ _ hg (run_store_bound hb), .storeBound hs hp hg hb⟩
    | false =>
      by_cases ha : g.address = 0
      · refine ⟨_, _, _, run_onGuard _ _ hg (run_store_released hb ha), ?_⟩
        simp only [set_self hg]
        exact .storeReleased hs hp hg hb ha
      · obtain ⟨ns, hrun⟩ : ∃ ns, (Guard.store w.thread slot).run (g, p) = ⟨_, _, ns⟩ :=
          run_store hb ha
        exact ⟨_, _, _, run_onGuard _ _ hg hrun, .store hs hp hg hb ha⟩

/-! ### Releasing -/

theorem run_clearCell_unbound {g : Guard} (hslot : g.slot = none) :
    (Guard.clearCell : GuardAction σ Unit).run (g, p) = ⟨.ok (), (g, p), []⟩ := by
  simp only [Guard.clearCell, Guard.current, Action.run_bind, Action.run_read, Action.run_pure,
    hslot, List.nil_append]

theorem run_clearCell {g : Guard} {slot : Slot} (hslot : g.slot = some slot) :
    (Guard.clearCell : GuardAction σ Unit).run (g, p) =
      ⟨.ok (), ({ g with slot := none }, { p with cells := slot.write 0 p.cells }), []⟩ := by
  simp only [Guard.clearCell, Guard.current, Action.run_bind, Action.run_read, Action.run_pure,
    hslot, List.nil_append]
  rfl

theorem run_takeTask {g : Guard} {address i : Nat} (ht : g.task = some i) :
    (Guard.takeTask address : GuardAction σ Nat).run (g, p) =
      ⟨.ok i, ({ g with task := none }, p), []⟩ := by
  simp only [Guard.takeTask, Guard.current, Action.run_bind, Action.run_read, Action.run_pure, ht,
    List.nil_append]
  rfl

theorem isStep_release {k : Nat} {unwinding : Bool} {program : List (Command σ ρ)}
    (hs : w.stage = .idle) (hp : w.program = .release k unwinding :: program) :
    IsStep w p (({ w with program } : Owner σ ρ).begin (.release k unwinding)) := by
  simp only [IsStep, begin]
  cases hg : w.guards[k]? with
  | none => exact ⟨_, _, _, rfl, .releaseNone hs hp hg⟩
  | some g =>
    by_cases ha : g.address = 0
    · have hr : g.isReleased = true := beq_iff_eq.2 ha
      simp only [hr, if_true]
      exact ⟨_, _, _, rfl, .releaseAgain hs hp hg ha⟩
    · have hr : ¬ g.isReleased = true := fun hr => ha (beq_iff_eq.1 hr)
      simp only [if_neg hr]
      exact ⟨_, _, _, run_onGuard Guard.clearAddress _ hg rfl, .release hs hp hg ha⟩

theorem isStep_begin {c : Command σ ρ} {program : List (Command σ ρ)} (hs : w.stage = .idle)
    (hp : w.program = c :: program) : IsStep w p (({ w with program } : Owner σ ρ).begin c) := by
  cases c with
  | act x => exact ⟨_, _, _, rfl, .act hs hp⟩
  | pin settings manager prepare cleanup =>
    simp only [IsStep, begin, Action.run_bind, Action.run_attempt, run_onManaged]
    cases ha : (prepare.run p.managed).answer with
    | error e => exact ⟨_, _, _, rfl, .prepareFails hs hp ha⟩
    | ok address => exact ⟨_, _, _, rfl, .prepare hs hp ha⟩
  | store k slot => exact isStep_store hs hp
  | release k unwinding => exact isStep_release hs hp

theorem isStep_clearCell {k address : Nat} {unwinding : Bool}
    (hs : w.stage = .clearingCell k address unwinding) :
    IsStep w p (w.onGuard k Guard.clearCell fun w () => w.goTo (.telling k address unwinding)) := by
  cases hg : w.guards[k]? with
  | none => exact ⟨_, _, _, run_onGuard_none _ _ hg, .clearNone hs hg⟩
  | some g =>
    cases hslot : g.slot with
    | none =>
      refine ⟨_, _, _, run_onGuard _ _ hg (run_clearCell_unbound hslot), ?_⟩
      simp only [set_self hg]
      exact .clearUnbound hs hg hslot
    | some slot =>
      exact ⟨_, _, _, run_onGuard _ _ hg (run_clearCell hslot), .clear hs hg hslot⟩

theorem isStep_tell {k address : Nat} {unwinding : Bool}
    (hs : w.stage = .telling k address unwinding) : IsStep w p (w.tell k address unwinding) := by
  simp only [tell]
  cases hg : w.guards[k]? with
  | none => exact ⟨_, _, _, run_onGuard_none _ _ hg, .tellNone hs hg⟩
  | some g =>
    cases ht : g.task with
    | none =>
      have hrun : (Guard.takeTask address : GuardAction σ Nat).run (g, p) =
          ⟨.error (.taskMissing address), (g, p), []⟩ := by
        simp only [Guard.takeTask, Guard.current, Action.run_bind, Action.run_read,
          Action.run_pure, ht, Action.run_fail, List.nil_append]
      exact ⟨_, _, _, run_onGuard_of_error _ _ hg (Action.run_bind_of_error hrun),
        .tellNobody hs hg ht⟩
    | some i =>
      exact ⟨_, _, _, run_onGuard _ _ hg (Action.run_bind_of_ok (run_takeTask ht)),
        .tell hs hg ht⟩

/-! ### Making -/

theorem isStep_launch {settings : TaskSettings} {manager : Manager σ} {address : Nat}
    {cleanup : Action Notice σ Unit} (hs : w.stage = .launching settings manager address cleanup) :
    IsStep w p (w.launch settings manager address cleanup) := by
  simp only [IsStep, launch, Shared.launch, Action.run_bind, Action.run_attempt,
    Action.run_require, Action.run_read]
  by_cases hn : '\x00' ∈ settings.name.toList
  · simp only [hn, not_true_eq_false, if_false]
    exact ⟨_, _, _, rfl, .launchFails hs hn⟩
  simp only [hn, not_false_eq_true, if_true]
  cases hr : p.refusal settings with
  | none => exact ⟨_, _, _, rfl, .launch hs hr⟩
  | some reason =>
    simp only [Action.run_bind, run_onManaged]
    cases hc : (manager.close.run p.managed).answer with
    | ok u => exact ⟨_, _, _, rfl, .launchRefused hs hr hc⟩
    | error e => exact ⟨_, _, _, rfl, .launchCloseFails hs hr hc⟩

theorem isStep_passPin {i address : Nat} {cleanup : Action Notice σ Unit}
    (hs : w.stage = .awaitingPin i address cleanup) (hr : w.isReady p = true) :
    IsStep w p (w.passPin i address cleanup) := by
  simp only [isReady, hs, Shared.isPinOpen] at hr
  simp only [IsStep, passPin, Action.run_bind, Action.run_read, Shared.startOf]
  cases ht : p.tasks[i]? with
  | none =>
    refine ⟨_, _, _, rfl, .missPin hs ?_⟩
    intro t hsome
    rw [ht] at hsome
    cases hsome
  | some t =>
    cases hf : t.established.signal with
    | armed => simp [ht, hf] at hr
    | fired =>
      simp only [hf, if_true]
      exact ⟨_, _, _, rfl, .passPin hs ht hf⟩
    | abandoned =>
      simp only [hf, reduceCtorEq, if_false]
      refine ⟨_, _, _, rfl, .missPin hs ?_⟩
      intro t' hsome
      rw [ht] at hsome
      cases hsome
      exact hf

theorem isStep_cleanUp {made : Except Fault (Except Refusal Guard)}
    {cleanup : Action Notice σ Unit} (hs : w.stage = .cleaningUp made cleanup) :
    IsStep w p (w.cleanUp made cleanup) := by
  simp only [IsStep, cleanUp, Action.run_bind, Action.run_attempt, run_onManaged]
  cases hc : (cleanup.run p.managed).answer with
  | error e =>
    match made with
    | .error _ => exact ⟨_, _, _, rfl, .cleanUpFails hs nofun hc⟩
    | .ok (.error _) => exact ⟨_, _, _, rfl, .cleanUpFails hs nofun hc⟩
    | .ok (.ok g) => exact ⟨_, _, _, rfl, .cleanUpDrops hs hc⟩
  | ok u =>
    match made with
    | .error e => exact ⟨_, _, _, rfl, .notMade hs hc⟩
    | .ok (.error refusal) => exact ⟨_, _, _, rfl, .refused hs hc⟩
    | .ok (.ok g) => exact ⟨_, _, _, rfl, .made hs hc⟩

theorem isStep_drop {g : Guard} {e : Fault} (hs : w.stage = .dropping g e) :
    IsStep w p (w.drop g e) := by
  simp only [IsStep, drop]
  by_cases ha : g.address = 0
  · have hr : g.isReleased = true := beq_iff_eq.2 ha
    simp only [hr, if_true]
    exact ⟨_, _, _, rfl, .dropReleased hs ha⟩
  · have hr : ¬ g.isReleased = true := fun hr => ha (beq_iff_eq.1 hr)
    simp only [if_neg hr]
    cases ht : g.task with
    | none => exact ⟨_, _, _, rfl, .dropNobody hs ha ht⟩
    | some i => exact ⟨_, _, _, rfl, .drop hs ha ht⟩

/-- Reading what an owner shares does not change it. -/
theorem run_conclude (owner : String) (unwinding : Bool) (address i : Nat) (p : Shared σ) :
    ((Shared.conclude owner unwinding address i).run p).state = p := by
  simp only [Shared.conclude, Action.run_bind, Action.run_read]
  cases p.isUnwound i with
  | true => cases p.faultOf i <;> rfl
  | false =>
    cases p.faultOf i with
    | none => cases unwinding <;> rfl
    | some e => cases unwinding <;> rfl

/-- An owner that is ready takes one of the steps on the list. -/
theorem isStep_step (hr : w.isReady p = true) : IsStep w p w.step := by
  cases hs : w.stage with
  | idle =>
    cases hp : w.program with
    | nil => simp [isReady, hs, hp] at hr
    | cons c program =>
      simp only [step, hs, hp]
      exact isStep_begin hs hp
  | launching settings manager address cleanup =>
    simp only [step, hs]
    exact isStep_launch hs
  | awaitingPin i address cleanup =>
    simp only [step, hs]
    exact isStep_passPin hs hr
  | joiningFailed i address cleanup =>
    simp only [step, hs]
    simp only [isReady, hs] at hr
    exact ⟨_, _, _, rfl, .joinFailed hs hr⟩
  | cleaningUp made cleanup =>
    simp only [step, hs]
    exact isStep_cleanUp hs
  | dropping g e =>
    simp only [step, hs]
    exact isStep_drop hs
  | clearingCell k address unwinding =>
    simp only [step, hs]
    exact isStep_clearCell hs
  | telling k address unwinding =>
    simp only [step, hs]
    exact isStep_tell hs
  | awaitingRelease i address cause =>
    simp only [step, hs]
    simp only [isReady, hs, Bool.not_eq_true'] at hr
    exact ⟨_, _, _, rfl, .passRelease hs hr⟩
  | joining i address cause =>
    simp only [step, hs]
    simp only [isReady, hs] at hr
    refine ⟨_, _, _, rfl, ?_⟩
    show Steps w p (w.finish _) ((Shared.conclude w.thread cause.unwinding address i).run p).state
    rw [run_conclude]
    exact .join hs hr

/-- An owner takes its commands one by one, whenever it is in the middle of nothing. -/
theorem Steps.program_cases {w' : Owner σ ρ} {p' : Shared σ} (h : Steps w p w' p') :
    (w.stage = .idle ∧ ∃ c, w.program = c :: w'.program) ∨
      (w.stage ≠ .idle ∧ w'.program = w.program) := by
  cases h with
  | act hs hp => exact .inl ⟨hs, _, hp⟩
  | prepareFails hs hp he => exact .inl ⟨hs, _, hp⟩
  | prepare hs hp ha => exact .inl ⟨hs, _, hp⟩
  | storeNone hs hp hg => exact .inl ⟨hs, _, hp⟩
  | storeBound hs hp hg hb => exact .inl ⟨hs, _, hp⟩
  | storeReleased hs hp hg hb ha => exact .inl ⟨hs, _, hp⟩
  | store hs hp hg hb ha => exact .inl ⟨hs, _, hp⟩
  | releaseNone hs hp hg => exact .inl ⟨hs, _, hp⟩
  | releaseAgain hs hp hg ha => exact .inl ⟨hs, _, hp⟩
  | release hs hp hg ha => exact .inl ⟨hs, _, hp⟩
  | _ => exact .inr ⟨by simp [*], rfl⟩

theorem Steps.program {w' : Owner σ ρ} {p' : Shared σ} (h : Steps w p w' p') {c : Command σ ρ}
    (hc : c ∈ w'.program) : c ∈ w.program := by
  rcases h.program_cases with ⟨-, d, hp⟩ | ⟨-, hp⟩
  · rw [hp]
    exact List.mem_cons_of_mem d hc
  · rw [← hp]
    exact hc

end Owner

namespace Task

variable {t : Task σ} {p : Shared σ}

/-- A step of a task, with what the threads share before and after it. -/
inductive Steps (t : Task σ) (p : Shared σ) : Task σ → Shared σ → Prop where
  | retain (hp : t.phase = .retain)
      (ha : ((t.manager.retain t.thread t.address).run p.managed).answer = .ok ()) :
      Steps t p { t with phase := .countIn }
        { p with managed := ((t.manager.retain t.thread t.address).run p.managed).state }
  | retainFails {e : Fault} (hp : t.phase = .retain)
      (he : ((t.manager.retain t.thread t.address).run p.managed).answer = .error e) :
      Steps t p (t.failed e)
        { p with managed := ((t.manager.retain t.thread t.address).run p.managed).state }
  | countIn (hp : t.phase = .countIn) :
      Steps t p { t with phase := .reportRetained } { p with holding := p.holding + 1 }
  | reportRetained (hp : t.phase = .reportRetained) : Steps t p { t with phase := .confirmPin } p
  | confirmPin (hp : t.phase = .confirmPin) :
      Steps t p { t with phase := .await, established := t.established.fire } p
  | passTerminate (hp : t.phase = .await) (hs : t.terminate.signal = .fired) :
      Steps t p { t with phase := .unretain } p
  | loseTerminate (hp : t.phase = .await) (hs : t.terminate.signal = .abandoned) :
      Steps t p { t with phase := .reportVanished } p
  | reportVanished (hp : t.phase = .reportVanished) : Steps t p { t with phase := .unretain } p
  | unretain (hp : t.phase = .unretain)
      (ha : ((t.manager.unretain t.thread t.address).run p.managed).answer = .ok ()) :
      Steps t p { t with phase := .countOut }
        { p with managed := ((t.manager.unretain t.thread t.address).run p.managed).state }
  | unretainFails {e : Fault} (hp : t.phase = .unretain)
      (he : ((t.manager.unretain t.thread t.address).run p.managed).answer = .error e) :
      Steps t p (t.failed e)
        { p with managed := ((t.manager.unretain t.thread t.address).run p.managed).state }
  | countOut (hp : t.phase = .countOut) :
      Steps t p { t with phase := .reportUnretained } { p with holding := p.holding - 1 }
  | reportUnretained (hp : t.phase = .reportUnretained) :
      Steps t p { t with phase := .confirmRelease } p
  | confirmRelease (hp : t.phase = .confirmRelease) :
      Steps t p { t with phase := .close, unwound := t.unwound.fire } p
  | close (hp : t.phase = .close) (ha : (t.manager.close.run p.managed).answer = .ok ()) :
      Steps t p { t with phase := .ended none }
        { p with managed := (t.manager.close.run p.managed).state }
  | closeFails {e : Fault} (hp : t.phase = .close)
      (he : (t.manager.close.run p.managed).answer = .error e) :
      Steps t p (t.failed e) { p with managed := (t.manager.close.run p.managed).state }

theorem run_call (t : Task σ) (x : Action Notice σ Unit) (next : Phase) (p : Shared σ) :
    (t.call x next).run p =
      ⟨.ok (t.after next (x.run p.managed).answer), { p with managed := (x.run p.managed).state },
        (x.run p.managed).notices.map (Entry.mk t.thread)⟩ := by
  simp only [call, Action.run_bind, Action.run_attempt, Owner.run_onManaged, Action.run_pure,
    List.append_nil]

/-- A task that is ready takes one of the steps on the list. -/
theorem steps_of_ready (hr : t.isReady = true) :
    ∃ t' p' ns, t.step.run p = ⟨.ok t', p', ns⟩ ∧ Steps t p t' p' := by
  unfold step
  cases hp : t.phase with
  | retain =>
    rw [run_call]
    cases ha : ((t.manager.retain t.thread t.address).run p.managed).answer with
    | ok u => exact ⟨_, _, _, rfl, .retain hp ha⟩
    | error e => exact ⟨_, _, _, rfl, .retainFails hp ha⟩
  | countIn => exact ⟨_, _, _, rfl, .countIn hp⟩
  | reportRetained => exact ⟨_, _, _, rfl, .reportRetained hp⟩
  | confirmPin => exact ⟨_, _, _, rfl, .confirmPin hp⟩
  | await =>
    cases hs : t.terminate.signal with
    | armed => simp [isReady, hp, hs] at hr
    | fired => exact ⟨_, _, _, rfl, .passTerminate hp hs⟩
    | abandoned => exact ⟨_, _, _, rfl, .loseTerminate hp hs⟩
  | reportVanished => exact ⟨_, _, _, rfl, .reportVanished hp⟩
  | unretain =>
    rw [run_call]
    cases ha : ((t.manager.unretain t.thread t.address).run p.managed).answer with
    | ok u => exact ⟨_, _, _, rfl, .unretain hp ha⟩
    | error e => exact ⟨_, _, _, rfl, .unretainFails hp ha⟩
  | countOut => exact ⟨_, _, _, rfl, .countOut hp⟩
  | reportUnretained => exact ⟨_, _, _, rfl, .reportUnretained hp⟩
  | confirmRelease => exact ⟨_, _, _, rfl, .confirmRelease hp⟩
  | close =>
    rw [run_call]
    cases ha : (t.manager.close.run p.managed).answer with
    | ok u => exact ⟨_, _, _, rfl, .close hp ha⟩
    | error e => exact ⟨_, _, _, rfl, .closeFails hp ha⟩
  | ended e => simp [isReady, hp] at hr

theorem Steps.tasks {t' : Task σ} {p' : Shared σ} (h : Steps t p t' p') : p'.tasks = p.tasks := by
  cases h <;> rfl

end Task

theorem Shared.run_stepTask {p p' : Shared σ} {j : Nat} {t t' : Task σ} {ns : List Entry}
    (ht : p.tasks[j]? = some t) (hr : t.isReady = true) (h : t.step.run p = ⟨.ok t', p', ns⟩) :
    (Shared.stepTask j).run p = ⟨.ok (), p'.modifyTask j fun _ => t', ns⟩ := by
  simp only [Shared.stepTask, Action.run_bind, Action.run_read, ht, hr, if_true, h,
    Action.run_update, List.nil_append, List.append_nil]

namespace Threads

variable {s t : Threads σ ρ}

/-- What a step of any actor does. -/
inductive Moves (s : Threads σ ρ) : Actor → Threads σ ρ → Prop where
  | owner {i : Nat} {w w' : Owner σ ρ} {p : Shared σ} {ns : List Entry}
      (hw : s.owners[i]? = some w) (h : Owner.Steps w s.shared w' p) :
      Moves s (.owner i)
        { shared := p, owners := s.owners.set i w', journal := s.journal ++ ns }
  | task {i : Nat} {u u' : Task σ} {p : Shared σ} {ns : List Entry}
      (hu : s.shared.tasks[i]? = some u) (h : Task.Steps u s.shared u' p) :
      Moves s (.task i)
        { s with shared := p.modifyTask i fun _ => u', journal := s.journal ++ ns }

theorem Moves.owner_cases {i : Nat} {w : Owner σ ρ} (h : Moves s (.owner i) t)
    (hw : s.owners[i]? = some w) :
    ∃ w', Owner.Steps w s.shared w' t.shared ∧ t.owners = s.owners.set i w' := by
  cases h with
  | owner hw' h =>
    rw [hw] at hw'
    cases hw'
    exact ⟨_, h, rfl⟩

theorem Moves.task_cases {i : Nat} (h : Moves s (.task i) t) :
    ∃ u u' p, s.shared.tasks[i]? = some u ∧ Task.Steps u s.shared u' p ∧
      t.shared = p.modifyTask i (fun _ => u') ∧ t.owners = s.owners := by
  cases h with
  | task hu h => exact ⟨_, _, _, hu, h, rfl, rfl⟩

/-- The step of an owner that can take one. -/
theorem step?_owner {i : Nat} {w w' : Owner σ ρ} {p : Shared σ} {ns : List Entry}
    (hw : s.owners[i]? = some w) (hr : w.isReady s.shared = true)
    (h : w.step.run s.shared = ⟨.ok w', p, ns⟩) :
    s.step? (.owner i) =
      some { shared := p, owners := s.owners.set i w', journal := s.journal ++ ns } := by
  rw [Action.run] at h
  simp only [step?, stepOwner, hw, hr, if_true, h]

/-- The step of a task that can take one. -/
theorem step?_task {i : Nat} {u u' : Task σ} {p : Shared σ} {ns : List Entry}
    (hu : s.shared.tasks[i]? = some u) (hr : u.isReady = true)
    (h : u.step.run s.shared = ⟨.ok u', p, ns⟩) :
    s.step? (.task i) =
      some { s with shared := p.modifyTask i fun _ => u', journal := s.journal ++ ns } := by
  have hrun := Shared.run_stepTask hu hr h
  rw [Action.run] at hrun
  simp only [step?, stepTask, hu, hr, if_true, hrun]

/-- Whoever takes a step can take one. -/
theorem ready_of_step?_owner {i : Nat} (h : s.step? (.owner i) = some t) :
    ∃ w, s.owners[i]? = some w ∧ w.isReady s.shared = true := by
  simp only [step?, stepOwner] at h
  cases hw : s.owners[i]? with
  | none => simp [hw] at h
  | some w =>
    cases hr : w.isReady s.shared with
    | true => exact ⟨w, rfl, hr⟩
    | false => simp [hw, hr] at h

theorem ready_of_step?_task {i : Nat} (h : s.step? (.task i) = some t) :
    ∃ u, s.shared.tasks[i]? = some u ∧ u.isReady = true := by
  simp only [step?, stepTask] at h
  cases hu : s.shared.tasks[i]? with
  | none => simp [hu] at h
  | some u =>
    cases hr : u.isReady with
    | true => exact ⟨u, rfl, hr⟩
    | false => simp [hu, hr] at h

theorem moves_of_step? {a : Actor} (h : s.step? a = some t) : Moves s a t := by
  cases a with
  | owner i =>
    obtain ⟨w, hw, hr⟩ := ready_of_step?_owner h
    obtain ⟨w', p, ns, hrun, hstep⟩ := Owner.isStep_step hr
    cases (step?_owner hw hr hrun).symm.trans h
    exact .owner hw hstep
  | task i =>
    obtain ⟨u, hu, hr⟩ := ready_of_step?_task h
    obtain ⟨u', p, ns, hrun, hstep⟩ := Task.steps_of_ready (p := s.shared) hr
    cases (step?_task hu hr hrun).symm.trans h
    exact .task hu hstep

/-- A task that is ready can take its step. -/
theorem exists_step?_task {i : Nat} {u : Task σ} (hu : s.shared.tasks[i]? = some u)
    (hr : u.isReady = true) : ∃ t, s.step? (.task i) = some t := by
  obtain ⟨u', p, ns, hrun, -⟩ := Task.steps_of_ready (p := s.shared) hr
  exact ⟨_, step?_task hu hr hrun⟩

/-- So can an owner. -/
theorem exists_step?_owner {i : Nat} {w : Owner σ ρ} (hw : s.owners[i]? = some w)
    (hr : w.isReady s.shared = true) : ∃ t, s.step? (.owner i) = some t := by
  obtain ⟨w', p, ns, hrun, -⟩ := Owner.isStep_step hr
  exact ⟨_, step?_owner hw hr hrun⟩

/-- Lets actors take steps in the given order, as long as they can. -/
def steps? (s : Threads σ ρ) : List Actor → Option (Threads σ ρ)
  | [] => some s
  | a :: as => (s.step? a).bind (steps? · as)

theorem Reaches.of_steps? {as : List Actor} (h : s.steps? as = some t) : Reaches s t := by
  induction as generalizing s with
  | nil =>
    cases h
    exact .refl _
  | cons a as ih =>
    obtain ⟨u, hu, hrest⟩ := Option.bind_eq_some_iff.1 h
    exact .step a hu (ih hrest)

end Threads

end PinnedHeap
