import PinnedHeap.Proofs.Guard.Publication

/-!
# What happens to a pin

What owners and tasks do to each other, and what a task has from its manager,
are events. `Threads.Traces` is a run together with its events, in their order,
and the log of a task is what happens to the one pin that it is there for.

`Owner.Marks` lists what the steps of an owner add to the events, and what they
have to do with tasks.
-/

namespace PinnedHeap

variable {σ ρ : Type}

/-- Something that happens in a run of owners and tasks. -/
inductive Event (ρ : Type) where
  /-- An owner has started a task for an address. -/
  | launched (owner task : Nat)
  /-- The task has called `retain`, and this is how it ended. -/
  | retained (task : Nat) (r : Except Fault Unit)
  /-- The owner that waited for the pin knows what came of it. -/
  | constructed (owner task : Nat) (made : Except Fault (Except Refusal Guard))
  /-- The owner has told the task of a guard to stop. -/
  | told (owner : Nat) (cause : Cause) (task : Nat)
  /-- The task has called `unretain`, and this is how it ended. -/
  | unretained (task : Nat) (r : Except Fault Unit)
  /-- The task has come to its end. -/
  | exited (task : Nat)
  /-- The release that told the task to stop has ended, and this is the result. -/
  | released (owner task : Nat) (cause : Cause) (r : Result ρ)
  /-- A release has broken off before it told anyone to stop. -/
  | stranded (owner : Nat)
  /-- A guard without an address was released. -/
  | again (owner guard : Nat)

namespace Event

/-- The task whose pin the event is about. -/
def task? : Event ρ → Option Nat
  | launched _ j => some j
  | retained j _ => some j
  | constructed _ j _ => some j
  | told _ _ j => some j
  | unretained j _ => some j
  | exited j => some j
  | released _ j _ _ => some j
  | stranded _ => none
  | again _ _ => none

/-- What comes of a release once the manager has answered. On a thread that is failing
already, the answer does not matter. -/
def outcome (cause : Cause) (r : Except Fault Unit) : Result ρ :=
  cause.result (if cause.unwinding then .ok () else r)

/-- What happens to a pin that the manager refuses. -/
def refusal (i j : Nat) (e : Fault) : List (Event ρ) :=
  [.launched i j, .retained j (.error e), .exited j, .constructed i j (.error e)]

/-- What happens to a pin that is established, up to the end of its release. -/
def pin (i j a : Nat) (r : Except Fault Unit) (cause : Cause) : List (Event ρ) :=
  [.launched i j, .retained j (.ok ()), .constructed i j (.ok (.ok (.of a j))), .told i cause j,
    .unretained j r, .exited j, .released i j cause (outcome cause r)]

/-- What happens to the pin of task `j`, all in all. -/
inductive Course (j : Nat) : List (Event ρ) → Prop where
  | refusal (i : Nat) (e : Fault) : Course j (refusal i j e)
  | pin (i a : Nat) (r : Except Fault Unit) (cause : Cause) : Course j (pin i j a r cause)

/-- What has happened to the pin of task `j`. -/
def log (es : List (Event ρ)) (j : Nat) : List (Event ρ) := es.filter fun e => e.task? = some j

variable {es fs : List (Event ρ)} {e : Event ρ} {j : Nat}

theorem mem_log : e ∈ log es j ↔ e ∈ es ∧ e.task? = some j := by simp [log]

theorem mem_log_of_task? (h : e.task? = some j) : e ∈ log es j ↔ e ∈ es := by simp [mem_log, h]

theorem log_append (h : ∀ e ∈ fs, e.task? = some j) : log (es ++ fs) j = log es j ++ fs := by
  have hall : fs.filter (fun e => e.task? = some j) = fs := List.filter_eq_self.2 (by simpa using h)
  rw [log, List.filter_append, hall, log]

theorem log_append_of_ne (h : ∀ e ∈ fs, e.task? ≠ some j) : log (es ++ fs) j = log es j := by
  have hnil : fs.filter (fun e => e.task? = some j) = [] :=
    List.filter_eq_nil_iff.2 (by simpa using h)
  rw [log, List.filter_append, hnil, List.append_nil, log]

end Event

/-- A fault of its manager is the end of task `j`. -/
def Event.ending (j : Nat) : Except Fault Unit → List (Event ρ)
  | .ok () => []
  | .error _ => [.exited j]

/-- What happens in a step of task `j`, with the managers at `m` before it. What this says of a
call to the manager is of the very call that the step makes (`Threads.Calls`). -/
def Task.events (j : Nat) (u u' : Task σ) (m : σ) : List (Event ρ) :=
  (match u.phase with
    | .retain => [.retained j ((u.manager.retain u.thread u.address).run m).answer]
    | .unretain => [.unretained j ((u.manager.unretain u.thread u.address).run m).answer]
    | _ => []) ++
  match u'.phase with
  | .ended _ => [.exited j]
  | _ => []

/-- A task has to do with nothing but its manager. -/
theorem Task.mem_events {j : Nat} {u u' : Task σ} {m : σ} {e : Event ρ}
    (he : e ∈ u.events j u' m) :
    (∃ r, e = .retained j r) ∨ (∃ r, e = .unretained j r) ∨ e = .exited j := by
  rcases List.mem_append.1 he with he | he
  · cases hp : u.phase with
    | retain =>
      rw [hp] at he
      exact .inl ⟨_, List.mem_singleton.1 he⟩
    | unretain =>
      rw [hp] at he
      exact .inr (.inl ⟨_, List.mem_singleton.1 he⟩)
    | _ => simp [hp] at he
  · cases hp : u'.phase with
    | ended fault =>
      rw [hp] at he
      exact .inr (.inr (List.mem_singleton.1 he))
    | _ => simp [hp] at he

/-- What happens in a step of owner `i`. -/
def Owner.events (i : Nat) (w w' : Owner σ ρ) : List (Event ρ) :=
  match w.stage, w'.stage with
  | .launching _ _ _ _, .awaitingPin j _ _ => [.launched i j]
  | .awaitingPin j _ _, .cleaningUp made _ => [.constructed i j made]
  | .joiningFailed j _ _, .cleaningUp made _ => [.constructed i j made]
  | .dropping _ _, .awaitingRelease j _ cause => [.told i cause j]
  | .telling _ _ _, .awaitingRelease j _ cause => [.told i cause j]
  | .joining j _ cause, .idle => (w'.results.drop w.results.length).map (.released i j cause)
  | .dropping g _, .idle => if g.isReleased then [] else [.stranded i]
  | .clearingCell _ _ _, .idle => [.stranded i]
  | .telling _ _ _, .idle => [.stranded i]
  | .idle, .idle =>
    match w.program with
    | .release k _ :: _ => if w.guards[k]?.any Guard.isReleased then [.again i k] else []
    | _ => []
  | _, _ => []

namespace Threads

/-- What happens in a step that leads from `s` to `t`. -/
def events (s : Threads σ ρ) (a : Actor) (t : Threads σ ρ) : List (Event ρ) :=
  match a with
  | .owner i =>
    match s.owners[i]?, t.owners[i]? with
    | some w, some w' => w.events i w'
    | _, _ => []
  | .task j =>
    match s.shared.tasks[j]?, t.shared.tasks[j]? with
    | some u, some u' => u.events j u' s.shared.managed
    | _, _ => []

/-- `t` comes out of `s` by steps in which all this has happened. -/
inductive Traces (s : Threads σ ρ) : List (Event ρ) → Threads σ ρ → Prop where
  | refl : Traces s [] s
  | step {es : List (Event ρ)} {t u : Threads σ ρ} (a : Actor) (h : Traces s es t)
      (ha : t.step? a = some u) : Traces s (es ++ t.events a u) u

variable {s t u : Threads σ ρ} {es fs : List (Event ρ)}

theorem Traces.reaches (h : Traces s es t) : Reaches s t := by
  induction h with
  | refl => exact .refl s
  | step a h ha ih => exact ih.trans (.step a ha (.refl _))

/-- Lets actors take steps in the given order, as long as they can, and collects what
happens. -/
def trace? (s : Threads σ ρ) (es : List (Event ρ)) :
    List Actor → Option (List (Event ρ) × Threads σ ρ)
  | [] => some (es, s)
  | a :: as => (s.step? a).bind fun t => t.trace? (es ++ s.events a t) as

theorem Traces.of_trace? {as : List Actor} (h : Traces s es t)
    (hu : t.trace? es as = some (fs, u)) : Traces s fs u := by
  induction as generalizing t es with
  | nil =>
    cases hu
    exact h
  | cons a as ih =>
    obtain ⟨v, hv, hrest⟩ := Option.bind_eq_some_iff.1 hu
    exact ih (h.step a hv) hrest

theorem Moves.owner_events {i : Nat} (h : Moves s (.owner i) t) :
    ∃ w w', s.owners[i]? = some w ∧ Owner.Steps w s.shared w' t.shared ∧
      t.owners = s.owners.set i w' ∧ s.events (.owner i) t = w.events i w' := by
  cases h with
  | @owner _ w w' p ns hw hstep =>
    refine ⟨w, w', hw, hstep, rfl, ?_⟩
    simp only [events, hw, getElem?_set_self_of_some hw]

theorem Moves.task_events {j : Nat} (h : Moves s (.task j) t) :
    ∃ v v' p, s.shared.tasks[j]? = some v ∧ Task.Steps v s.shared v' p ∧
      t.shared = p.modifyTask j (fun _ => v') ∧ t.owners = s.owners ∧
      s.events (.task j) t = v.events j v' s.shared.managed := by
  obtain ⟨v, v', p, hv, hstep, hshared, howners⟩ := h.task_cases
  have hv' : t.shared.tasks[j]? = some v' := hshared ▸ hstep.getElem?_self hv
  refine ⟨v, v', p, hv, hstep, hshared, howners, ?_⟩
  simp only [events, hv, hv']

/-- How task `j`, which is `v` before the step that leads from `s` to `u`, acts on what is managed:
by calling its manager and by letting go of it, and in no other way. What is told of a call, what
is managed after it and what is noted come of one and the same run. -/
inductive Calls (s : Threads σ ρ) (j : Nat) (v : Task σ) (u : Threads σ ρ) : Prop where
  | retain {r : Except Fault Unit} {ns : List Notice} (hp : v.phase = .retain)
      (hrun : (v.manager.retain v.thread v.address).run s.shared.managed =
        ⟨r, u.shared.managed, ns⟩)
      (hn : u.journal = s.journal ++ ns.map (Entry.mk v.thread))
      (he : s.events (.task j) u = .retained j r :: Event.ending j r) : Calls s j v u
  | unretain {r : Except Fault Unit} {ns : List Notice} (hp : v.phase = .unretain)
      (hrun : (v.manager.unretain v.thread v.address).run s.shared.managed =
        ⟨r, u.shared.managed, ns⟩)
      (hn : u.journal = s.journal ++ ns.map (Entry.mk v.thread))
      (he : s.events (.task j) u = .unretained j r :: Event.ending j r) : Calls s j v u
  | close {r : Except Fault Unit} {ns : List Notice} (hp : v.phase = .close)
      (hrun : v.manager.close.run s.shared.managed = ⟨r, u.shared.managed, ns⟩)
      (hn : u.journal = s.journal ++ ns.map (Entry.mk v.thread))
      (he : s.events (.task j) u = [.exited j]) : Calls s j v u
  | nothing (hr : v.phase ≠ .retain) (hu : v.phase ≠ .unretain) (hc : v.phase ≠ .close)
      (hm : u.shared.managed = s.shared.managed) (he : s.events (.task j) u = []) : Calls s j v u

theorem calls_of_step? {j : Nat} {v : Task σ} (hv : s.shared.tasks[j]? = some v)
    (h : s.step? (.task j) = some u) : Calls s j v u := by
  obtain ⟨v₁, hv₁, hr⟩ := ready_of_step?_task h
  cases hv.symm.trans hv₁
  obtain ⟨v', p, ns, hrun, hstep⟩ := Task.steps_of_ready (p := s.shared) hr
  obtain rfl := Option.some.inj ((step?_task hv hr hrun).symm.trans h)
  have hevents : ∀ {es : List (Event ρ)}, v.events j v' s.shared.managed = es →
      s.events (.task j) { s with shared := p.modifyTask j fun _ => v', journal := s.journal ++ ns } =
        es := by
    rintro es rfl
    simp only [events, hv, hstep.getElem?_self hv]
  cases hp : v.phase with
  | retain =>
    rcases hm : (v.manager.retain v.thread v.address).run s.shared.managed with ⟨r, m, ms⟩
    rw [Task.step, hp, Task.run_call, hm] at hrun
    cases hrun
    refine .retain hp hm rfl (hevents ?_)
    simp only [Task.events, hp, hm]
    cases r <;> rfl
  | unretain =>
    rcases hm : (v.manager.unretain v.thread v.address).run s.shared.managed with ⟨r, m, ms⟩
    rw [Task.step, hp, Task.run_call, hm] at hrun
    cases hrun
    refine .unretain hp hm rfl (hevents ?_)
    simp only [Task.events, hp, hm]
    cases r <;> rfl
  | close =>
    rcases hm : v.manager.close.run s.shared.managed with ⟨r, m, ms⟩
    rw [Task.step, hp, Task.run_call, hm] at hrun
    cases hrun
    refine .close hp hm rfl (hevents ?_)
    simp only [Task.events, hp]
    cases r <;> rfl
  | _ =>
    have hm : p.managed = s.shared.managed ∧ v.events (ρ := ρ) j v' s.shared.managed = [] := by
      cases hstep <;> simp_all [Task.events]
    exact .nothing (by simp [hp]) (by simp [hp]) (by simp [hp]) hm.1 (hevents hm.2)

end Threads

/-! ## Owners and the tasks that they wait for -/

/-- The task that an owner waits for. -/
def Stage.waitsFor? : Stage σ → Option Nat
  | .awaitingPin j _ _ => some j
  | .joiningFailed j _ _ => some j
  | .awaitingRelease j _ _ => some j
  | .joining j _ _ => some j
  | _ => none

/-- Is the owner in the middle of nothing? -/
def Stage.isIdle : Stage σ → Bool
  | .idle => true
  | _ => false

/-- The owner neither waits for a task nor has made a guard just now. -/
def Stage.IsFree : Stage σ → Prop
  | .idle => True
  | .launching _ _ _ _ => True
  | .cleaningUp (.error _) _ => True
  | .cleaningUp (.ok (.error _)) _ => True
  | .clearingCell _ _ _ => True
  | .telling _ _ _ => True
  | _ => False

/-- The guard that has lost its address, but whose task has not been told. -/
def Stage.unpins? : Stage σ → Option Nat
  | .clearingCell k _ _ => some k
  | .telling k _ _ => some k
  | _ => none

/-- The guard whose task the owner is about to tell to stop, its address, and why. -/
inductive Owner.Stops (w : Owner σ ρ) : Guard → Nat → Cause → Prop where
  | asked {k a : Nat} {unwinding : Bool} {g : Guard} (hs : w.stage = .telling k a unwinding)
      (hg : w.guards[k]? = some g) : Stops w g a (.asked k unwinding)
  | dropped {g : Guard} {e : Fault} (hs : w.stage = .dropping g e) :
      Stops w g g.address (.dropped e)

/-- Its task has confirmed the pin. -/
theorem Owner.Stops.backed {w : Owner σ ρ} {p : Shared σ} {g : Guard} {a : Nat} {cause : Cause}
    (h : w.Stops g a cause) (hw : w.Orderly p) : g.Backed p a := by
  cases h with
  | asked hs hg => exact (hw.released_guard (.inr hs) hg).2
  | dropped hs =>
    have hstage := hw.stage
    rw [hs] at hstage
    exact hstage.1

theorem Owner.Stops.task_ne_none {w : Owner σ ρ} {p : Shared σ} {g : Guard} {a : Nat}
    {cause : Cause} (h : w.Stops g a cause) (hw : w.Orderly p) : g.task ≠ none := by
  obtain ⟨j, -, hj, -⟩ := h.backed hw
  rw [hj]
  nofun

/-- Its owner answers for it. -/
theorem Owner.Stops.mem_claims {s : Threads σ ρ} {i j : Nat} {w : Owner σ ρ} {g : Guard} {a : Nat}
    {cause : Cause} (h : w.Stops g a cause) (hw : s.owners[i]? = some w) (hj : g.task = some j) :
    j ∈ s.claims := by
  cases h with
  | asked hs hg => exact Threads.mem_claims_of_guard hw hg hj
  | dropped hs => exact Threads.mem_claims_of_stage hw (by rw [hs]; exact hj)

/-- What a step of owner `i` adds to the events, and what it has to do with tasks. -/
inductive Owner.Marks (i : Nat) (w : Owner σ ρ) (p : Shared σ) (w' : Owner σ ρ) (p' : Shared σ) :
    List (Event ρ) → Prop where
  | nothing (hs : w'.stage.IsFree) (hp : p'.tasks = p.tasks) : Marks i w p w' p' []
  | again {k : Nat} {g : Guard} (hs : w.stage = .idle) (hg : w.guards[k]? = some g)
      (ha : g.address = 0) (hs' : w'.stage.IsFree) (hp : p'.tasks = p.tasks) :
      Marks i w p w' p' [.again i k]
  | launched {a : Nat} {u : Task σ} {cleanup : Action Notice σ Unit}
      (hs' : w'.stage = .awaitingPin p.tasks.length a cleanup) (hp : p'.tasks = p.tasks ++ [u])
      (hu : u.phase = .retain) (ht : u.terminate.signal = .armed)
      (hw : u.unwound.signal = .armed) : Marks i w p w' p' [.launched i p.tasks.length]
  | constructed {j a : Nat} {cleanup : Action Notice σ Unit} {u : Task σ}
      (hs : w.stage = .awaitingPin j a cleanup) (hu : p.tasks[j]? = some u)
      (hf : u.established.signal = .fired)
      (hs' : w'.stage = .cleaningUp (.ok (.ok (.of a j))) cleanup) (hp : p'.tasks = p.tasks) :
      Marks i w p w' p' [.constructed i j (.ok (.ok (.of a j)))]
  | missed {j a : Nat} {cleanup : Action Notice σ Unit} (hs : w.stage = .awaitingPin j a cleanup)
      (hu : ∀ u, p.tasks[j]? = some u → u.established.signal = .abandoned)
      (hs' : w'.stage = .joiningFailed j a cleanup) (hp : p'.tasks = p.tasks) :
      Marks i w p w' p' []
  | failed {j a : Nat} {cleanup : Action Notice σ Unit}
      (hs : w.stage = .joiningFailed j a cleanup) (he : p.hasEnded j = true)
      (hs' : w'.stage.IsFree) (hp : p'.tasks = p.tasks) :
      Marks i w p w' p' [.constructed i j (.error ((p.faultOf j).getD (.pinUnconfirmed a)))]
  | keptBack {cleanup : Action Notice σ Unit} {g : Guard} {e : Fault}
      (hs : w.stage = .cleaningUp (.ok (.ok g)) cleanup) (hs' : w'.stage = .dropping g e)
      (hp : p'.tasks = p.tasks) : Marks i w p w' p' []
  | told {a j : Nat} {cause : Cause} {g : Guard} (hg : w.Stops g a cause) (ht : g.task = some j)
      (hs' : w'.stage = .awaitingRelease j a cause) (hp : p' = p.tellTask j) :
      Marks i w p w' p' [.told i cause j]
  | unwound {j a : Nat} {cause : Cause} (hs : w.stage = .awaitingRelease j a cause)
      (hs' : w'.stage = .joining j a cause) (hp : p'.tasks = p.tasks) : Marks i w p w' p' []
  | released {j a : Nat} {cause : Cause} (hs : w.stage = .joining j a cause)
      (he : p.hasEnded j = true) (hs' : w'.stage.IsFree) (hp : p'.tasks = p.tasks) :
      Marks i w p w' p' [.released i j cause (cause.result
        ((Shared.conclude w.thread cause.unwinding a j).run p).answer)]

theorem Owner.Steps.marks {w w' : Owner σ ρ} {p p' : Shared σ} (h : Owner.Steps w p w' p')
    (hw : w.Orderly p) (i : Nat) : Owner.Marks i w p w' p' (w.events i w') := by
  cases h with
  | @releaseAgain k unwinding program g hs hp hg ha =>
    have hevents : w.events i ({ w with program }.finish .done) = [.again i k] := by
      simp [Owner.events, Owner.finish, hs, hp, hg, Guard.isReleased, ha]
    rw [hevents]
    exact .again hs hg ha trivial rfl
  | @releaseNone k unwinding program hs hp hg =>
    have hevents : w.events i ({ w with program }.finish .noGuard) = [] := by
      simp [Owner.events, Owner.finish, hs, hp, hg]
    rw [hevents]
    exact .nothing trivial rfl
  | launch hs hr =>
    simp only [Owner.events, goTo, hs]
    exact .launched rfl rfl rfl rfl rfl
  | passPin hs ht hf =>
    simp only [Owner.events, goTo, hs]
    exact .constructed hs ht hf rfl rfl
  | missPin hs ht =>
    simp only [Owner.events, goTo, hs]
    exact .missed hs ht rfl rfl
  | joinFailed hs he =>
    simp only [Owner.events, goTo, hs]
    exact .failed hs he trivial rfl
  | tell hs hg ht =>
    simp only [Owner.events, goTo, hs]
    exact .told (.asked hs hg) ht rfl rfl
  | cleanUpDrops hs he =>
    simp only [Owner.events, goTo, hs]
    exact .keptBack hs rfl rfl
  | dropReleased hs ha =>
    simp only [Owner.events, finish, hs, Guard.isReleased, ha, beq_self_eq_true, if_true]
    exact .nothing trivial rfl
  | drop hs ha ht =>
    simp only [Owner.events, goTo, hs]
    exact .told (.dropped hs) ht rfl rfl
  | dropNobody hs ha ht => exact absurd ht ((Owner.Stops.dropped hs).task_ne_none hw)
  | passRelease hs hr =>
    simp only [Owner.events, goTo, hs]
    exact .unwound hs rfl rfl
  | join hs he =>
    simp only [Owner.events, finish, hs, List.drop_left, List.map_cons, List.map_nil]
    exact .released hs he trivial rfl
  | clearNone hs hg => exact absurd (.inl hg) (hw.not_lost (.inl hs))
  | tellNone hs hg => exact absurd (.inl hg) (hw.not_lost (.inr hs))
  | tellNobody hs hg ht => exact absurd (.inr ⟨_, hg, ht⟩) (hw.not_lost (.inr hs))
  | _ =>
    simp only [Owner.events, goTo, finish, *]
    exact .nothing trivial rfl

/-- Every release finds the task that it has to tell. -/
theorem Owner.Marks.not_stranded {w w' : Owner σ ρ} {p p' : Shared σ} {i : Nat}
    {fs : List (Event ρ)} (h : Owner.Marks i w p w' p' fs) (o : Nat) : .stranded o ∉ fs := by
  cases h <;> simp

end PinnedHeap
