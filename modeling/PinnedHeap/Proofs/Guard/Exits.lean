import PinnedHeap.Proofs.Guard.Blocks

/-!
# The exits of a block

Making and releasing a guard as one block can end in a few ways, according to
what the manager does when the task calls it. `Guard.Establishes` and
`Guard.Releases` list them, each with everything that it leaves behind. They
rest on `Task.Runs`: what a task does that is left to itself, in which the
other tasks have no part.
-/

namespace PinnedHeap

variable {σ : Type}

theorem Shared.modifyTask_const (p : Shared σ) (j : Nat) (t : Task σ) :
    (p.modifyTask j fun _ => t) = { p with tasks := p.tasks.set j t } := by
  rw [modifyTask, List.modify_eq_set_getElem?]
  cases hj : p.tasks[j]? with
  | none => rw [List.set_eq_of_length_le (List.getElem?_eq_none_iff.1 hj)]; rfl
  | some u => rfl

/-! ## A task that is left to itself -/

namespace Task

/-- The task of an address that is pinned, until it is told to stop. -/
def waiting (thread : String) (address : Nat) (manager : Manager σ) : Task σ where
  thread
  address
  manager
  phase := .await
  established := { signal := .fired }

/-- That task when it has been told to stop. -/
def stopping (thread : String) (address : Nat) (manager : Manager σ) : Task σ :=
  { waiting thread address manager with terminate := Gate.arm.fire }

/-- Left to itself, the task `t` comes to rest as `t'`. -/
inductive Runs : Task σ → Shared σ → Task σ → Shared σ → List Entry → Prop where
  | rest {t : Task σ} {p : Shared σ} (hr : t.isReady = false) : Runs t p t p []
  | step {t u t' : Task σ} {p q p' : Shared σ} {ns ms : List Entry} (hr : t.isReady = true)
      (h : t.step.run p = ⟨.ok u, q, ns⟩) (rest : Runs u q t' p' ms) : Runs t p t' p' (ns ++ ms)

/-- A task looks at no task, itself included. -/
theorem run_step_with (t : Task σ) (p : Shared σ) (ts : List (Task σ)) :
    t.step.run { p with tasks := ts } =
      ⟨(t.step.run p).answer, { (t.step.run p).state with tasks := ts },
        (t.step.run p).notices⟩ := by
  unfold step
  cases t.phase with
  | await => cases t.terminate.signal <;> rfl
  | _ => rfl

/-- Whoever lets a task run finds the others as they were. -/
theorem Runs.run_stepTaskTimes {t t' : Task σ} {p p' : Shared σ} {ns : List Entry} {j n : Nat}
    {ts : List (Task σ)} (h : Runs t p t' p' ns) (ht : ts[j]? = some t)
    (hn : t.phase.stepsLeft ≤ n) :
    (Shared.stepTaskTimes j n).run { p with tasks := ts } =
      ⟨.ok (), { p' with tasks := ts.set j t' }, ns⟩ := by
  induction h generalizing ts n with
  | @rest t p hr =>
    rw [Shared.run_stepTaskTimes_of_not_ready, Owner.set_self ht]
    intro u hu
    have hu : ts[j]? = some u := hu
    rw [ht] at hu
    cases hu
    exact hr
  | @step t u t' p q p' ns ms hr h rest ih =>
    have hleft : u.phase.stepsLeft < t.phase.stepsLeft := by
      obtain ⟨u', q', ns', hrun, hstep⟩ := steps_of_ready (p := p) hr
      rw [h] at hrun
      cases hrun
      exact hstep.stepsLeft_lt
    obtain ⟨m, rfl⟩ : ∃ m, n = m + 1 := ⟨n - 1, by omega⟩
    have hstep : (Shared.stepTask j).run { p with tasks := ts } =
        ⟨.ok (), { q with tasks := ts.set j u }, ns⟩ := by
      have hone : t.step.run { p with tasks := ts } = ⟨.ok u, { q with tasks := ts }, ns⟩ := by
        rw [run_step_with, h]
      rw [Shared.run_stepTask ht hr hone, Shared.modifyTask_const]
    have hrest := ih (n := m) (getElem?_set_self_of_some ht u) (by omega)
    rw [Shared.stepTaskTimes, Action.run_bind_of_ok hstep, hrest, List.set_set]

variable {t t' : Task σ} {p p' : Shared σ} {m m' : σ} {ls ls' : List Notice} {e : Fault}

/-- A task that calls its manager, and what it does next. -/
theorem Runs.call {x : Action Notice σ Unit} {next : Phase} {r : Except Fault Unit}
    {ns : List Entry} (hr : t.isReady = true) (hs : t.step = t.call x next)
    (h : x.run p.managed = ⟨r, m, ls⟩)
    (rest : Runs (t.after next r) { p with managed := m } t' p' ns) :
    Runs t p t' p' (ls.map (Entry.mk t.thread) ++ ns) :=
  .step hr (by rw [hs, run_call, h]) rest

/-- A task that takes a step that no one hears of. -/
theorem Runs.silent {u : Task σ} {q : Shared σ} {ns : List Entry} (hr : t.isReady = true)
    (h : t.step.run p = ⟨.ok u, q, []⟩) (rest : Runs u q t' p' ns) : Runs t p t' p' ns :=
  .step hr h rest

/-! ### A new task -/

theorem Runs.retainFails (hp : t.phase = .retain)
    (h : (t.manager.retain t.thread t.address).run p.managed = ⟨.error e, m, ls⟩) :
    Runs t p (t.failed e) { p with managed := m } (ls.map (Entry.mk t.thread)) := by
  have hr : t.isReady = true := by simp [isReady, hp]
  have hs : t.step = t.call (t.manager.retain t.thread t.address) .countIn := by
    simp only [Task.step, hp]
  rw [← List.append_nil (ls.map _)]
  exact .call hr hs h (.rest rfl)

theorem Runs.retain (hp : t.phase = .retain) (harmed : t.terminate.signal = .armed)
    (h : (t.manager.retain t.thread t.address).run p.managed = ⟨.ok (), m, ls⟩) :
    Runs t p { t with phase := .await, established := t.established.fire }
      { p with managed := m, holding := p.holding + 1 }
      (ls.map (Entry.mk t.thread) ++ [⟨t.thread, .taskRetained t.manager.name t.address⟩]) := by
  have hwait : Task.isReady { t with phase := .await, established := t.established.fire } =
      false := by
    simp [isReady, harmed]
  have hr : t.isReady = true := by simp [isReady, hp]
  have hs : t.step = t.call (t.manager.retain t.thread t.address) .countIn := by
    simp only [Task.step, hp]
  -- it counts itself in, reports, confirms, and then waits
  have hreport : Runs { t with phase := .reportRetained }
      { p with managed := m, holding := p.holding + 1 }
      { t with phase := .await, established := t.established.fire }
      { p with managed := m, holding := p.holding + 1 }
      [⟨t.thread, .taskRetained t.manager.name t.address⟩] := by
    rw [← List.append_nil [_]]
    exact .step rfl rfl (.silent rfl rfl (.rest hwait))
  exact .call hr hs h (.silent rfl rfl hreport)

/-! ### A task that is told to stop -/

/-- The task gives its address back. -/
theorem Runs.unretain {r : Except Fault Unit} {ns : List Entry} (hp : t.phase = .await)
    (hfired : t.terminate.signal = .fired)
    (h : (t.manager.unretain t.thread t.address).run p.managed = ⟨r, m, ls⟩)
    (rest : Runs (t.after .countOut r) { p with managed := m } t' p' ns) :
    Runs t p t' p' (ls.map (Entry.mk t.thread) ++ ns) := by
  have hpass : t.step.run p = ⟨.ok { t with phase := .unretain }, p, []⟩ := by
    simp only [Task.step, hp, hfired]
    rfl
  refine .silent (by simp [isReady, hp, hfired]) hpass ?_
  have hafter : Task.after { t with phase := .unretain } .countOut r = t.after .countOut r := by
    cases r <;> rfl
  exact .call rfl rfl h (hafter ▸ rest)

theorem Runs.unretainFails (hp : t.phase = .await) (hfired : t.terminate.signal = .fired)
    (h : (t.manager.unretain t.thread t.address).run p.managed = ⟨.error e, m, ls⟩) :
    Runs t p (t.failed e) { p with managed := m } (ls.map (Entry.mk t.thread)) := by
  rw [← List.append_nil (ls.map _)]
  exact .unretain hp hfired h (.rest rfl)

/-- The task has given its address back and lets go of its manager. -/
theorem Runs.unwind {r : Except Fault Unit} (hp : t.phase = .await)
    (hfired : t.terminate.signal = .fired)
    (h : (t.manager.unretain t.thread t.address).run p.managed = ⟨.ok (), m, ls⟩)
    (h' : t.manager.close.run m = ⟨r, m', ls'⟩) :
    Runs t p (Task.after { t with unwound := t.unwound.fire } (.ended none) r)
      { p with managed := m', holding := p.holding - 1 }
      (ls.map (Entry.mk t.thread) ++
        ⟨t.thread, .taskUnretained t.manager.name t.address⟩ :: ls'.map (Entry.mk t.thread)) := by
  have hclose : Runs { t with phase := .close, unwound := t.unwound.fire }
      { p with managed := m, holding := p.holding - 1 }
      (Task.after { t with unwound := t.unwound.fire } (.ended none) r)
      { p with managed := m', holding := p.holding - 1 } (ls'.map (Entry.mk t.thread)) := by
    have hrest : Task.isReady (Task.after { t with unwound := t.unwound.fire } (.ended none) r) =
        false := by
      cases r <;> rfl
    have hafter : Task.after { t with phase := .close, unwound := t.unwound.fire } (.ended none) r =
        Task.after { t with unwound := t.unwound.fire } (.ended none) r := by
      cases r <;> rfl
    rw [← List.append_nil (ls'.map _)]
    exact .call rfl rfl h' (hafter ▸ .rest hrest)
  -- it counts itself out, reports and confirms
  have hreport : Runs { t with phase := .reportUnretained }
      { p with managed := m, holding := p.holding - 1 }
      (Task.after { t with unwound := t.unwound.fire } (.ended none) r)
      { p with managed := m', holding := p.holding - 1 }
      ([⟨t.thread, .taskUnretained t.manager.name t.address⟩] ++ ls'.map (Entry.mk t.thread)) :=
    .step rfl rfl (.silent rfl rfl hclose)
  exact .unretain hp hfired h (.silent rfl rfl hreport)

end Task

namespace Guard

/-! ## Making a guard -/

/-- How making a guard can end, and what that leaves behind. -/
inductive Establishes (owner : String) (settings : TaskSettings) (manager : Manager σ) (a : Nat)
    (p : Shared σ) : Outcome Entry (Shared σ) (Except Refusal Guard) → Prop where
  /-- The name of the thread is no name. -/
  | misnamed (hn : '\x00' ∈ settings.name.toList) :
      Establishes owner settings manager a p ⟨.error (.nullInName settings.name), p, []⟩
  /-- There is no thread, and letting go of the manager failed. -/
  | closeFails {reason : String} {e : Fault} {m : σ} {ls : List Notice}
      (hn : '\x00' ∉ settings.name.toList) (hr : p.refusal settings = some reason)
      (hc : manager.close.run p.managed = ⟨.error e, m, ls⟩) :
      Establishes owner settings manager a p
        ⟨.error e, { p with managed := m }, ls.map (Entry.mk owner)⟩
  /-- There is no thread. -/
  | refused {reason : String} {m : σ} {ls : List Notice}
      (hn : '\x00' ∉ settings.name.toList) (hr : p.refusal settings = some reason)
      (hc : manager.close.run p.managed = ⟨.ok (), m, ls⟩) :
      Establishes owner settings manager a p
        ⟨.ok (.error ⟨a, reason⟩), { p with managed := m },
          ls.map (Entry.mk owner) ++ [⟨owner, .notPinned ⟨a, reason⟩⟩]⟩
  /-- The manager does not hold the address. -/
  | retainFails {e : Fault} {m : σ} {ls : List Notice}
      (hn : '\x00' ∉ settings.name.toList) (hr : p.refusal settings = none)
      (hm : (manager.retain settings.name a).run p.managed = ⟨.error e, m, ls⟩) :
      Establishes owner settings manager a p
        ⟨.error e,
          { p with
            managed := m
            tasks := p.tasks ++
              [Task.failed { thread := settings.name, address := a, manager } e] },
          ls.map (Entry.mk settings.name)⟩
  /-- The guard is made. -/
  | made {m : σ} {ls : List Notice}
      (hn : '\x00' ∉ settings.name.toList) (hr : p.refusal settings = none)
      (hm : (manager.retain settings.name a).run p.managed = ⟨.ok (), m, ls⟩) :
      Establishes owner settings manager a p
        ⟨.ok (.ok (of a p.tasks.length)),
          { p with
            managed := m
            holding := p.holding + 1
            tasks := p.tasks ++ [.waiting settings.name a manager] },
          ls.map (Entry.mk settings.name) ++
            [⟨settings.name, .taskRetained manager.name a⟩, ⟨owner, .pinned a⟩]⟩

variable {owner : String} {settings : TaskSettings} {manager : Manager σ} {a : Nat} {p : Shared σ}

/-- Whoever starts a task looks at it when it has come to rest. -/
theorem run_begin_of_runs (owner : String) {t : Task σ} {q : Shared σ} {ns : List Entry}
    (hn : '\x00' ∉ settings.name.toList) (hr : p.refusal settings = none)
    (h : Task.Runs { thread := settings.name, address := a, manager } p t q ns) :
    (Shared.begin owner settings manager a).run p =
      ⟨.ok (if t.established.signal = .fired then .established p.tasks.length
          else .failed t.fault?),
        { q with tasks := p.tasks ++ [t] }, ns⟩ := by
  have hlaunch : (Shared.launch owner settings manager a).run p =
      ⟨.ok (.ok p.tasks.length), { p with
        tasks := p.tasks ++ [{ thread := settings.name, address := a, manager }] }, []⟩ := by
    simp only [Shared.launch, Action.run_bind, Action.run_require, Action.run_read, hn,
      not_false_eq_true, if_true, hr]
    rfl
  have hrun := h.run_stepTaskTimes (j := p.tasks.length) List.getElem?_concat_length (Nat.le_refl _)
  rw [List.set_append_right _ _ (Nat.le_refl _), Nat.sub_self, List.set_cons_zero] at hrun
  rw [Owner.run_begin hlaunch, Shared.runTask, hrun]
  simp only [Shared.startOf, List.getElem?_concat_length, List.nil_append]

theorem establishes (owner : String) (settings : TaskSettings) (manager : Manager σ) (a : Nat)
    (p : Shared σ) :
    Establishes owner settings manager a p ((establish owner settings manager a).run p) := by
  by_cases hn : '\x00' ∈ settings.name.toList
  · have hlaunch : (Shared.launch owner settings manager a).run p =
        ⟨.error (.nullInName settings.name), p, []⟩ := by
      simp only [Shared.launch, Action.run_bind, Action.run_require, hn, not_true_eq_false,
        if_false]
    rw [establish, Shared.begin, Action.run_bind_of_error (Action.run_bind_of_error hlaunch)]
    exact .misnamed hn
  cases hr : p.refusal settings with
  | some reason =>
    rcases hc : manager.close.run p.managed with ⟨e | u, m, ls⟩
    · have hlaunch : (Shared.launch owner settings manager a).run p =
          ⟨.error e, { p with managed := m }, ls.map (Entry.mk owner)⟩ := by
        simp only [Shared.launch, Action.run_bind, Action.run_require, Action.run_read, hn,
          not_false_eq_true, if_true, hr, Owner.run_onManaged, hc, List.nil_append]
      rw [establish, Shared.begin, Action.run_bind_of_error (Action.run_bind_of_error hlaunch)]
      exact .closeFails hn hr hc
    · have hlaunch : (Shared.launch owner settings manager a).run p =
          ⟨.ok (.error ⟨a, reason⟩), { p with managed := m }, ls.map (Entry.mk owner)⟩ := by
        simp only [Shared.launch, Action.run_bind, Action.run_require, Action.run_read, hn,
          not_false_eq_true, if_true, hr, Owner.run_onManaged, hc, Action.run_pure,
          List.nil_append, List.append_nil]
      rw [establish, Shared.begin, Action.run_bind_of_ok (Action.run_bind_of_ok hlaunch)]
      simp only [Action.run_pure, Action.run_bind, Action.run_note, List.append_nil]
      exact .refused hn hr hc
  | none =>
    rcases hm : (manager.retain settings.name a).run p.managed with ⟨e | u, m, ls⟩
    · have hbegin := run_begin_of_runs owner hn hr (.retainFails rfl hm)
      rw [establish, Action.run_bind_of_ok hbegin]
      simp only [Task.failed, Gate.abandon_arm, reduceCtorEq, if_false, Task.fault?,
        Action.run_fail, List.append_nil]
      exact .retainFails hn hr hm
    · have hbegin := run_begin_of_runs owner hn hr (.retain rfl rfl hm)
      rw [establish, Action.run_bind_of_ok hbegin]
      simp only [Gate.fire_arm, if_true, Action.run_bind, Action.run_note, Action.run_pure,
        List.append_assoc, List.append_nil]
      exact .made hn hr hm

/-! ## Releasing a guard -/

/-- How releasing a guard can end, whose task waits on the thread `thread`, and what that leaves
behind. What has become of the task, nobody asks any more. -/
inductive Releases (owner thread : String) (unwinding : Bool) (manager : Manager σ) (g : Guard)
    (j : Nat) (p : Shared σ) : Outcome Entry (Guard × Shared σ) Unit → Prop where
  /-- The manager does not take the address back. -/
  | unretainFails {e : Fault} {m : σ} {ls : List Notice} {u : Task σ}
      (hm : (manager.unretain thread g.address).run p.managed = ⟨.error e, m, ls⟩) :
      Releases owner thread unwinding manager g j p
        ⟨if unwinding then .ok () else .error e,
          (g.spent, { p with
            managed := m
            cells := p.cells.takeBack g.slot
            tasks := p.tasks.set j u }),
          ls.map (Entry.mk thread) ++
            if unwinding then [⟨owner, .failedDuringUnwind g.address⟩] else []⟩
  /-- The address is given back, but letting go of the manager failed. -/
  | closeFails {e : Fault} {m m' : σ} {ls ls' : List Notice} {u : Task σ}
      (hm : (manager.unretain thread g.address).run p.managed = ⟨.ok (), m, ls⟩)
      (hc : manager.close.run m = ⟨.error e, m', ls'⟩) :
      Releases owner thread unwinding manager g j p
        ⟨.ok (),
          (g.spent, { p with
            managed := m'
            cells := p.cells.takeBack g.slot
            holding := p.holding - 1
            tasks := p.tasks.set j u }),
          ls.map (Entry.mk thread) ++
            ⟨thread, .taskUnretained manager.name g.address⟩ :: (ls'.map (Entry.mk thread) ++
              [⟨owner, .failedAfterRelease g.address⟩, ⟨owner, .released g.address⟩])⟩
  /-- The address is given back. -/
  | released {m m' : σ} {ls ls' : List Notice} {u : Task σ}
      (hm : (manager.unretain thread g.address).run p.managed = ⟨.ok (), m, ls⟩)
      (hc : manager.close.run m = ⟨.ok (), m', ls'⟩) :
      Releases owner thread unwinding manager g j p
        ⟨.ok (),
          (g.spent, { p with
            managed := m'
            cells := p.cells.takeBack g.slot
            holding := p.holding - 1
            tasks := p.tasks.set j u }),
          ls.map (Entry.mk thread) ++
            ⟨thread, .taskUnretained manager.name g.address⟩ :: (ls'.map (Entry.mk thread) ++
              [⟨owner, .released g.address⟩])⟩

variable {thread : String} {unwinding : Bool} {g : Guard} {j : Nat}

/-- Whoever releases a guard looks at its task when that has ended. -/
theorem run_release_of_runs {t : Task σ} {q : Shared σ} {ns ms : List Entry}
    {r : Except Fault Unit} (ha : g.address ≠ 0) (hj : g.task = some j)
    (ht : p.tasks[j]? = some (.waiting thread g.address manager))
    (h : Task.Runs (.stopping thread g.address manager)
      { p with cells := p.cells.takeBack g.slot } t q ns)
    (hconclude : (Shared.conclude owner unwinding g.address j).run
      { q with tasks := p.tasks.set j t } = ⟨r, { q with tasks := p.tasks.set j t }, ms⟩) :
    (release owner unwinding).run (g, p) =
      ⟨r, (g.spent, { q with tasks := p.tasks.set j t }), ns ++ ms⟩ := by
  have htell : ({ p with cells := p.cells.takeBack g.slot } : Shared σ).tellTask j =
      { p with
        cells := p.cells.takeBack g.slot
        tasks := p.tasks.set j (.stopping thread g.address manager) } := by
    rw [Shared.tellTask, Shared.modifyTask, List.modify_eq_set_getElem?, ht]
    rfl
  have hleft : (Task.stopping thread g.address manager).phase.stepsLeft ≤
      Phase.retain.stepsLeft := by
    simp only [Task.stopping, Task.waiting, Phase.stepsLeft]
    omega
  have hrun := h.run_stepTaskTimes (getElem?_set_self_of_some ht _) hleft
  rw [List.set_set] at hrun
  rw [run_release ha hj ((congrArg _ htell).trans hrun), hconclude]

/-! What the owner makes of its task when that has ended. -/

theorem run_conclude_released {t : Task σ} (ht : p.tasks[j]? = some t)
    (hu : t.unwound.signal = .fired) (hp : t.phase = .ended none) :
    (Shared.conclude owner unwinding a j).run p = ⟨.ok (), p, [⟨owner, .released a⟩]⟩ := by
  have hunwound : p.isUnwound j = true := by simp [Shared.isUnwound, ht, hu]
  have hfault : p.faultOf j = none := by simp [Shared.faultOf, Task.fault?, ht, hp]
  simp only [Shared.conclude, Action.run_bind, Action.run_read, hunwound, hfault]
  rfl

theorem run_conclude_failed {t : Task σ} {e : Fault} (ht : p.tasks[j]? = some t)
    (hu : t.unwound.signal = .fired) (hp : t.phase = .ended (some e)) :
    (Shared.conclude owner unwinding a j).run p =
      ⟨.ok (), p, [⟨owner, .failedAfterRelease a⟩, ⟨owner, .released a⟩]⟩ := by
  have hunwound : p.isUnwound j = true := by simp [Shared.isUnwound, ht, hu]
  have hfault : p.faultOf j = some e := by simp [Shared.faultOf, Task.fault?, ht, hp]
  simp only [Shared.conclude, Action.run_bind, Action.run_read, hunwound, hfault]
  rfl

theorem run_conclude_unconfirmed {t : Task σ} {e : Fault} (ht : p.tasks[j]? = some t)
    (hu : t.unwound.signal ≠ .fired) (hp : t.phase = .ended (some e)) :
    (Shared.conclude owner unwinding a j).run p =
      ⟨if unwinding then .ok () else .error e, p,
        if unwinding then [⟨owner, .failedDuringUnwind a⟩] else []⟩ := by
  have hunwound : p.isUnwound j = false := by simp [Shared.isUnwound, ht, hu]
  have hfault : p.faultOf j = some e := by simp [Shared.faultOf, Task.fault?, ht, hp]
  simp only [Shared.conclude, Action.run_bind, Action.run_read, hunwound, hfault]
  cases unwinding <;> rfl

theorem releases (owner : String) (unwinding : Bool) (ha : g.address ≠ 0) (hj : g.task = some j)
    (ht : p.tasks[j]? = some (.waiting thread g.address manager)) :
    Releases owner thread unwinding manager g j p ((release owner unwinding).run (g, p)) := by
  have hset := getElem?_set_self_of_some ht
  rcases hm : (manager.unretain thread g.address).run p.managed with ⟨e | u, m, ls⟩
  · have hunwound : (Task.failed (.stopping thread g.address manager) e).unwound.signal ≠ .fired :=
      nofun
    rw [run_release_of_runs ha hj ht (.unretainFails rfl rfl hm)
      (run_conclude_unconfirmed (hset _) hunwound rfl)]
    exact .unretainFails hm
  · rcases hc : manager.close.run m with ⟨e | u, m', ls'⟩
    · rw [run_release_of_runs ha hj ht (.unwind rfl rfl hm hc)
        (run_conclude_failed (hset _) rfl rfl), List.append_assoc]
      exact .closeFails hm hc
    · rw [run_release_of_runs ha hj ht (.unwind rfl rfl hm hc)
        (run_conclude_released (hset _) rfl rfl), List.append_assoc]
      exact .released hm hc

end Guard

end PinnedHeap
