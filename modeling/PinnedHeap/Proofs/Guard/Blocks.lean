import PinnedHeap.Proofs.Guard.Publication

/-!
# Blocks

`Command.run` carries a command out as one block: the tasks run only while the
owner waits for them. That is one of the orders in which owners and tasks can
take their steps (`Threads.Orderly.reaches_run`), so what holds in every order
holds of blocks as well.
-/

namespace PinnedHeap

variable {σ ρ : Type}

/-! ## A task that is let run -/

namespace Shared

variable {p q : Shared σ} {j n : Nat} {t : Task σ}

/-- Where a task can take no step, letting it take one does nothing. -/
theorem run_stepTask_cases (p : Shared σ) (j : Nat) :
    (∃ t t' p' ns, p.tasks[j]? = some t ∧ t.isReady = true ∧ Task.Steps t p t' p' ∧
      (stepTask j).run p = ⟨.ok (), p'.modifyTask j fun _ => t', ns⟩) ∨
    ((∀ t, p.tasks[j]? = some t → t.isReady = false) ∧
      (stepTask j).run p = ⟨.ok (), p, []⟩) := by
  cases ht : p.tasks[j]? with
  | none =>
    refine .inr ⟨by simp, ?_⟩
    simp only [stepTask, Action.run_bind, Action.run_read, ht, Action.run_pure, List.append_nil]
  | some t =>
    cases hr : t.isReady with
    | true =>
      obtain ⟨t', p', ns, hrun, hstep⟩ := Task.steps_of_ready (p := p) hr
      exact .inl ⟨t, t', p', ns, rfl, hr, hstep, run_stepTask ht hr hrun⟩
    | false =>
      refine .inr ⟨by simpa using hr, ?_⟩
      simp only [stepTask, Action.run_bind, Action.run_read, ht, hr, Bool.false_eq_true, if_false,
        Action.run_pure, List.append_nil]

theorem run_stepTaskTimes_of_not_ready (h : ∀ t, p.tasks[j]? = some t → t.isReady = false)
    (n : Nat) : (stepTaskTimes j n).run p = ⟨.ok (), p, []⟩ := by
  induction n with
  | zero => rfl
  | succ n ih =>
    rcases run_stepTask_cases p j with ⟨t, _, _, _, ht, hr, -⟩ | ⟨-, hrun⟩
    · rw [h t ht] at hr
      cases hr
    · rw [stepTaskTimes, Action.run_bind_of_ok hrun, ih]
      rfl

/-- Letting a task run never fails, whatever becomes of the task. -/
theorem exists_run_stepTaskTimes (p : Shared σ) (j n : Nat) :
    ∃ q ns, (stepTaskTimes j n).run p = ⟨.ok (), q, ns⟩ := by
  induction n generalizing p with
  | zero => exact ⟨p, [], rfl⟩
  | succ n ih =>
    rcases run_stepTask_cases p j with ⟨t, t', p', ns, -, -, -, hrun⟩ | ⟨-, hrun⟩
    · obtain ⟨q, ms, hrest⟩ := ih (p'.modifyTask j fun _ => t')
      rw [stepTaskTimes, Action.run_bind_of_ok hrun, hrest]
      exact ⟨_, _, rfl⟩
    · obtain ⟨q, ms, hrest⟩ := ih p
      rw [stepTaskTimes, Action.run_bind_of_ok hrun, hrest]
      exact ⟨_, _, rfl⟩

/-- A task that is let run for long enough waits in the end, or has ended. -/
theorem exists_task_stepTaskTimes {P : Task σ → Prop}
    (hP : ∀ {t t' : Task σ} {p p' : Shared σ}, Task.Steps t p t' p' → P t → P t')
    (ht : p.tasks[j]? = some t) (hPt : P t) (hn : t.phase.stepsLeft ≤ n) :
    ∃ t', ((stepTaskTimes j n).run p).state.tasks[j]? = some t' ∧ P t' ∧ t'.isReady = false := by
  induction n generalizing p t with
  | zero =>
    refine ⟨t, ht, hPt, ?_⟩
    cases hp : t.phase with
    | ended e => simp [Task.isReady, hp]
    | _ => simp [hp, Phase.stepsLeft] at hn
  | succ n ih =>
    rcases run_stepTask_cases p j with ⟨u, t', p', ns, hu, hr, hstep, hrun⟩ | ⟨hrest, -⟩
    · rw [ht] at hu
      cases hu
      have hn' : t'.phase.stepsLeft ≤ n := by
        have hlt := hstep.stepsLeft_lt
        omega
      rw [stepTaskTimes, Action.run_bind_of_ok hrun]
      exact ih (hstep.getElem?_self ht) (hP hstep hPt) hn'
    · rw [run_stepTaskTimes_of_not_ready hrest]
      exact ⟨t, ht, hPt, hrest t ht⟩

end Shared

namespace Task

/-- A task that has not been told to stop waits when it comes to rest and has confirmed the pin,
or has ended without doing so. -/
theorem Coherent.rests {t : Task σ} (ht : t.Coherent) (hs : t.terminate.signal = .armed)
    (hr : t.isReady = false) :
    (t.established.signal = .fired ∧ t.phase = .await) ∨
      t.established.signal = .abandoned ∧ ∃ e, t.phase = .ended e := by
  unfold Coherent at ht
  cases hp : t.phase with
  | await =>
    rw [hp] at ht
    exact .inl ⟨ht, rfl⟩
  | ended e =>
    rw [hp] at ht
    rcases ht with ha | hne
    · exact .inr ⟨ha, e, rfl⟩
    · exact absurd hs hne
  | _ => simp [isReady, hp] at hr

/-- The task has been told to stop, and has settled its release by the time that it lets go of
its manager. -/
def Told (t : Task σ) : Prop :=
  t.terminate.signal ≠ .armed ∧
    (t.phase.stepsLeft ≤ Phase.close.stepsLeft → t.unwound.signal ≠ .armed)

theorem Steps.told {t t' : Task σ} {p p' : Shared σ} (h : Steps t p t' p') (ht : t.Told) :
    t'.Told := by
  refine ⟨?_, ?_⟩
  · rw [h.terminate]
    exact ht.1
  · intro hleft
    cases h with
    | retainFails hp he => exact abandon_not_armed _
    | unretainFails hp he => exact abandon_not_armed _
    | closeFails hp he => exact abandon_not_armed _
    | confirmRelease hp => exact fire_not_armed _
    | close hp ha => exact ht.2 (Nat.le_of_eq (by rw [hp]))
    | _ => simp [Phase.stepsLeft] at hleft

/-- Once it has been told to stop, a task rests only when it has ended. -/
theorem Told.rests {t : Task σ} (ht : t.Told) (hr : t.isReady = false) :
    t.unwound.signal ≠ .armed ∧ ∃ e, t.phase = .ended e := by
  cases hp : t.phase with
  | await => simp [isReady, hp, ht.1] at hr
  | ended e => exact ⟨ht.2 (by simp [hp, Phase.stepsLeft]), e, rfl⟩
  | _ => simp [isReady, hp] at hr

end Task

/-- The cells once the address has been taken back that was published through a slot. -/
def Cells.takeBack (c : Cells) : Option Slot → Cells
  | none => c
  | some slot => slot.write 0 c

namespace Guard

/-! ## Actions on guards -/

variable {owner : String} {settings : TaskSettings} {manager : Manager σ} {a j : Nat}
  {p q : Shared σ} {g g' : Guard} {unwinding : Bool} {made : Except Fault (Except Refusal Guard)}

/-- The guard once it is released. -/
def spent (g : Guard) : Guard := { g with address := 0, slot := none, task := none }

theorem run_clearCell (g : Guard) (p : Shared σ) :
    (clearCell : GuardAction σ Unit).run (g, p) =
      ⟨.ok (), ({ g with slot := none }, { p with cells := p.cells.takeBack g.slot }), []⟩ := by
  cases hslot : g.slot with
  | none =>
    rw [Owner.run_clearCell_unbound hslot, Cells.takeBack, ← hslot]
  | some slot => exact Owner.run_clearCell hslot

theorem run_release_again (ha : g.address = 0) :
    (release owner unwinding).run (g, p) = ⟨.ok (), (g, p), []⟩ := by
  have hr : g.isReleased = true := beq_iff_eq.2 ha
  simp only [release, current, Action.run_bind, Action.run_read, Action.run_pure, hr, if_true,
    List.nil_append]

theorem run_release {ns : List Entry} (ha : g.address ≠ 0) (hj : g.task = some j)
    (hrun : (Shared.runTask j).run
      (({ p with cells := p.cells.takeBack g.slot } : Shared σ).tellTask j) = ⟨.ok (), q, ns⟩) :
    (release owner unwinding).run (g, p) =
      ⟨((Shared.conclude owner unwinding g.address j).run q).answer, (g.spent, q),
        ns ++ ((Shared.conclude owner unwinding g.address j).run q).notices⟩ := by
  have hr : g.isReleased = false := beq_eq_false_iff_ne.2 ha
  have haddress : (clearAddress : GuardAction σ Unit).run (g, p) =
      ⟨.ok (), ({ g with address := 0 }, p), []⟩ := rfl
  have htake : (takeTask g.address : GuardAction σ Nat).run
      ({ g with address := 0, slot := none }, { p with cells := p.cells.takeBack g.slot }) =
      ⟨.ok j, (g.spent, { p with cells := p.cells.takeBack g.slot }), []⟩ := Owner.run_takeTask hj
  simp only [release, current, Action.run_bind, Action.run_read, Action.run_pure, hr,
    Bool.false_eq_true, if_false, haddress, run_clearCell, htake, onShared, Action.run_within,
    Place.snd, Action.run_update, hrun, List.nil_append, List.append_nil, Owner.run_conclude]

theorem run_drop {r : Except Fault Unit} {ns : List Entry}
    (h : (release owner true).run (g, p) = ⟨r, (g', q), ns⟩) :
    (drop owner g).run p = ⟨r, q, ns⟩ := by
  rw [Action.run] at h ⊢
  simp only [drop, h]

/-- A guard that has just been made: no cell has its address, and its task waits to be told to
stop. -/
structure IsNew (g : Guard) (p : Shared σ) : Prop where
  slot : g.slot = none
  waits : ∃ j t, g.task = some j ∧ p.tasks[j]? = some t ∧ t.phase = .await

theorem run_handOver_ok (owner : String) (made : Except Fault (Except Refusal Guard))
    (p : Shared σ) : (handOver owner made (.ok ())).run p = ⟨made, p, []⟩ := by
  cases made <;> rfl

/-- Where cleaning up has failed, nothing is handed over. -/
theorem handOver_ok {c : Except Fault Unit} {r : Except Refusal Guard} {ns : List Entry}
    (h : (handOver owner made c).run p = ⟨.ok r, q, ns⟩) : c = .ok () ∧ made = .ok r ∧ q = p := by
  cases c with
  | ok u =>
    rw [run_handOver_ok] at h
    cases h
    exact ⟨rfl, rfl, rfl⟩
  | error e =>
    rcases made with e' | refusal | g
    · cases h
    · cases h
    · rcases hd : (drop owner g).run p with ⟨e' | u, p', ms⟩
      · rw [handOver, Action.run_bind_of_error hd] at h
        cases h
      · rw [handOver, Action.run_bind_of_ok hd] at h
        cases h

/-- The address is found first, and there is a clean-up last, whatever came of the pin. -/
theorem run_establishBetween {prepare : Action Notice σ Nat} {cleanup : Action Notice σ Unit}
    {m m' : σ} {ls ls' : List Notice} {c : Except Fault Unit} {q' : Shared σ}
    {made' : Except Fault (Except Refusal Guard)} {ns ns' : List Entry}
    (hprepare : prepare.run p.managed = ⟨.ok a, m, ls⟩)
    (hmade : (establish owner settings manager a).run { p with managed := m } = ⟨made, q, ns⟩)
    (hclean : cleanup.run q.managed = ⟨c, m', ls'⟩)
    (hover : (handOver owner made c).run { q with managed := m' } = ⟨made', q', ns'⟩) :
    (establishBetween owner settings manager prepare cleanup).run p =
      ⟨made', q', ls.map (Entry.mk owner) ++ (ns ++ (ls'.map (Entry.mk owner) ++ ns'))⟩ := by
  simp only [establishBetween, Action.run_bind, Action.run_attempt, Owner.run_onManaged, hprepare,
    hmade, hclean, hover]

/-- Where no address is found, there is nothing to clean up. -/
theorem run_establishBetween_of_error {prepare : Action Notice σ Nat}
    {cleanup : Action Notice σ Unit} {m : σ} {ls : List Notice} {e : Fault}
    (hprepare : prepare.run p.managed = ⟨.error e, m, ls⟩) :
    (establishBetween owner settings manager prepare cleanup).run p =
      ⟨.error e, { p with managed := m }, ls.map (Entry.mk owner)⟩ := by
  simp only [establishBetween, Action.run_bind, Owner.run_onManaged, hprepare]

end Guard

namespace Owner

/-- Its own steps, and those of the tasks that it lets run, lead an owner from `w` to `w'`. -/
structure Leads (w : Owner σ ρ) (p : Shared σ) (w' : Owner σ ρ) (p' : Shared σ)
    (ns : List Entry) : Prop where
  reaches : ∀ {s : Threads σ ρ} {i : Nat}, s.owners[i]? = some w → s.shared = p →
    s.Reaches { shared := p', owners := s.owners.set i w', journal := s.journal ++ ns }

namespace Leads

variable {w w' w'' : Owner σ ρ} {p p' p'' : Shared σ} {ns ns' : List Entry}

theorem refl (w : Owner σ ρ) (p : Shared σ) : Leads w p w p [] where
  reaches := by
    rintro s i hw rfl
    rw [set_self hw, List.append_nil]
    exact .refl s

theorem trans (h : Leads w p w' p' ns) (h' : Leads w' p' w'' p'' ns') :
    Leads w p w'' p'' (ns ++ ns') where
  reaches := by
    intro s i hw hp
    have hrest := h'.reaches (i := i)
      (s := { shared := p', owners := s.owners.set i w', journal := s.journal ++ ns })
      (getElem?_set_self_of_some hw w') rfl
    rw [List.set_set, List.append_assoc] at hrest
    exact (h.reaches hw hp).trans hrest

/-- A step of the owner. -/
theorem step (hr : w.isReady p = true) (h : w.step.run p = ⟨.ok w', p', ns⟩) :
    Leads w p w' p' ns where
  reaches := by
    rintro s i hw rfl
    exact .step (.owner i) (Threads.step?_owner hw hr h) (.refl _)

/-- Steps of a task. -/
theorem tasks (w : Owner σ ρ) (p : Shared σ) (j n : Nat) :
    Leads w p w ((Shared.stepTaskTimes j n).run p).state
      ((Shared.stepTaskTimes j n).run p).notices := by
  induction n generalizing p with
  | zero => exact refl w p
  | succ n ih =>
    rcases Shared.run_stepTask_cases p j with ⟨t, t', p', ns, ht, hr, -, hrun⟩ | ⟨hrest, -⟩
    · have hfirst : Leads w p w (p'.modifyTask j fun _ => t') ns := by
        refine ⟨?_⟩
        rintro s i hw rfl
        refine .step (.task j) ?_ (.refl _)
        rw [Action.run] at hrun
        simp only [Threads.step?, Threads.stepTask, ht, hr, if_true, hrun, set_self hw]
      rw [Shared.stepTaskTimes, Action.run_bind_of_ok hrun]
      exact hfirst.trans (ih _)
    · rw [Shared.run_stepTaskTimes_of_not_ready hrest]
      exact refl w p

end Leads

/-! ## Releasing a guard -/

variable {w : Owner σ ρ} {p q : Shared σ} {g g' : Guard} {a j k : Nat} {unwinding : Bool}
  {cause : Cause}

theorem leads_clearCell (hs : w.stage = .clearingCell k a unwinding) (hg : w.guards[k]? = some g)
    (p : Shared σ) :
    Leads w p
      ({ w with guards := w.guards.set k { g with slot := none } }.goTo (.telling k a unwinding))
      { p with cells := p.cells.takeBack g.slot } [] := by
  refine .step (by simp only [isReady, hs]) ?_
  simp only [step, hs]
  exact run_onGuard Guard.clearCell _ hg (Guard.run_clearCell g p)

theorem leads_tell (hs : w.stage = .telling k a unwinding) (hg : w.guards[k]? = some g)
    (hj : g.task = some j) :
    Leads w p
      ({ w with guards := w.guards.set k { g with task := none } }.goTo
        (.awaitingRelease j a (.asked k unwinding))) (p.tellTask j) [] := by
  refine .step (by simp only [isReady, hs]) ?_
  simp only [step, hs, tell]
  exact run_onGuard _ _ hg (Action.run_bind_of_ok (run_takeTask hj))

/-- An owner whose task was told to stop and has been let run finds it ended, and concludes. -/
theorem leads_conclude {t : Task σ} (hs : w.stage = .awaitingRelease j a cause)
    (ht : p.tasks[j]? = some t) (htold : t.Told) (hr : t.isReady = false) :
    Leads w p
      (w.finish (cause.result ((Shared.conclude w.thread cause.unwinding a j).run p).answer)) p
      ((Shared.conclude w.thread cause.unwinding a j).run p).notices := by
  obtain ⟨hunwound, e, hp⟩ := htold.rests hr
  have hpass : Leads w p (w.goTo (.joining j a cause)) p [] := by
    refine .step ?_ ?_
    · simp [isReady, hs, Shared.isReleaseOpen, ht, hunwound]
    · simp only [step, hs, Action.run_pure]
  refine hpass.trans (.step ?_ ?_)
  · simp [isReady, goTo, Shared.hasEnded, ht, hp]
  · simp only [step, goTo, Action.run_bind, Action.run_attempt, run_conclude, Action.run_pure,
      List.append_nil]
    rfl

/-- An owner that has told a waiting task to stop can let it run to its end. -/
theorem leads_end {t : Task σ} {ms : List Entry} (hs : w.stage = .awaitingRelease j a cause)
    (ht : p.tasks[j]? = some t) (hwait : t.phase = .await)
    (hrun : (Shared.runTask j).run (p.tellTask j) = ⟨.ok (), q, ms⟩) :
    Leads w (p.tellTask j)
      (w.finish (cause.result ((Shared.conclude w.thread cause.unwinding a j).run q).answer)) q
      (ms ++ ((Shared.conclude w.thread cause.unwinding a j).run q).notices) := by
  have ht₁ : (p.tellTask j).tasks[j]? = some { t with terminate := t.terminate.fire } :=
    Shared.getElem?_modifyTask_self ht _
  have htold : Task.Told { t with terminate := t.terminate.fire } := by
    refine ⟨Task.fire_not_armed _, ?_⟩
    intro hleft
    simp [hwait, Phase.stepsLeft] at hleft
  have hleft : ({ t with terminate := t.terminate.fire } : Task σ).phase.stepsLeft ≤
      Phase.retain.stepsLeft := by simp [hwait, Phase.stepsLeft]
  obtain ⟨t', ht', htold', hrest⟩ :=
    Shared.exists_task_stepTaskTimes Task.Steps.told ht₁ htold hleft
  have htasks := Leads.tasks w (p.tellTask j) j Phase.retain.stepsLeft
  rw [← Shared.runTask, hrun] at htasks ht'
  exact htasks.trans (leads_conclude hs ht' htold' hrest)

/-- An owner can release a guard as `Guard.release` does, if the guard's task waits. -/
theorem leads_release {program : List (Command σ ρ)} {t : Task σ} (hs : w.stage = .idle)
    (hp : w.program = .release k unwinding :: program) (hg : w.guards[k]? = some g)
    (ha : g.address ≠ 0) (hj : g.task = some j) (ht : p.tasks[j]? = some t)
    (hwait : t.phase = .await) {r : Except Fault Unit} {ns : List Entry}
    (h : (Guard.release w.thread unwinding).run (g, p) = ⟨r, (g', q), ns⟩) :
    Leads w p
      ({ w with program, guards := w.guards.set k g' }.finish (.ofExcept (fun _ => .done) r)) q
      ns := by
  have hr : g.isReleased = false := beq_eq_false_iff_ne.2 ha
  obtain ⟨q', ms, hrun⟩ := Shared.exists_run_stepTaskTimes
    (({ p with cells := p.cells.takeBack g.slot } : Shared σ).tellTask j) j Phase.retain.stepsLeft
  rw [Guard.run_release ha hj hrun] at h
  cases h
  -- the owner takes steps of its own up to where it waits
  have hbegin : Leads w p
      ({ w with program, guards := w.guards.set k { g with address := 0 } }.goTo
        (.clearingCell k g.address unwinding)) p [] := by
    refine .step (by simp [isReady, hs, hp]) ?_
    simp only [step, hs, hp, begin, hg, hr, Bool.false_eq_true, if_false]
    exact run_onGuard Guard.clearAddress _ hg rfl
  have hg₁ := getElem?_set_self_of_some hg { g with address := 0 }
  have hclearing := hbegin.trans (leads_clearCell rfl hg₁ p)
  have hg₂ := getElem?_set_self_of_some hg₁ { g with address := 0, slot := none }
  have htelling := hclearing.trans (leads_tell rfl hg₂ hj)
  simp only [goTo, List.set_set] at htelling
  have hending := htelling.trans (leads_end rfl ht hwait hrun)
  exact hending

/-! ## Dropping a guard -/

/-- On a thread that is failing already, a release does not fail. -/
theorem answer_conclude_unwinding (owner : String) (a j : Nat) (p : Shared σ) :
    ((Shared.conclude owner true a j).run p).answer = .ok () := by
  simp only [Shared.conclude, Action.run_bind, Action.run_read]
  cases p.isUnwound j <;> cases p.faultOf j <;> rfl

/-- An owner can drop a guard that it has just made as `Guard.drop` does. -/
theorem leads_drop {e : Fault} (hs : w.stage = .dropping g e) (hnew : g.IsNew p) :
    ∃ q ns, (Guard.drop w.thread g).run p = ⟨.ok (), q, ns⟩ ∧
      Leads w p (w.finish (.fault e)) q ns := by
  obtain ⟨hslot, j, t, hj, ht, hwait⟩ := hnew
  have hstep : w.step = w.drop g e := by simp only [step, hs]
  by_cases ha : g.address = 0
  · have hr : g.isReleased = true := beq_iff_eq.2 ha
    refine ⟨_, _, Guard.run_drop (Guard.run_release_again ha), .step ?_ ?_⟩
    · simp only [isReady, hs]
    · simp only [hstep, drop, hr, if_true, Action.run_pure]
  · have hr : g.isReleased = false := beq_eq_false_iff_ne.2 ha
    obtain ⟨q, ms, hrun⟩ :=
      Shared.exists_run_stepTaskTimes (p.tellTask j) j Phase.retain.stepsLeft
    have hsame : { p with cells := p.cells.takeBack g.slot } = p := by rw [hslot]; rfl
    have hrelease : (Guard.release w.thread true).run (g, p) = _ :=
      Guard.run_release ha hj (hsame.symm ▸ hrun)
    rw [answer_conclude_unwinding] at hrelease
    have htelling : Leads w p (w.goTo (.awaitingRelease j g.address (.dropped e)))
        (p.tellTask j) [] := by
      refine .step (by simp only [isReady, hs]) ?_
      simp only [hstep, drop, hr, hj, Bool.false_eq_true, if_false]
      rfl
    have hending := htelling.trans (leads_end rfl ht hwait hrun)
    exact ⟨_, _, Guard.run_drop hrelease, hending⟩

/-! ## Making a guard -/

variable {settings : TaskSettings} {manager : Manager σ} {cleanup : Action Notice σ Unit}

/-- What asking for a task answers is where the task is, if there is one. -/
theorem run_launch_ok {ns : List Entry}
    (h : (Shared.launch w.thread settings manager a).run p = ⟨.ok (.ok j), q, ns⟩) :
    ns = [] ∧ q.tasks[j]? = some { thread := settings.name, address := a, manager } := by
  simp only [Shared.launch, Action.run_bind, Action.run_require, Action.run_read] at h
  by_cases hn : '\x00' ∈ settings.name.toList
  · simp [hn] at h
  · simp only [hn, not_false_eq_true, if_true] at h
    cases hr : p.refusal settings with
    | none =>
      rw [hr] at h
      cases h
      exact ⟨rfl, List.getElem?_concat_length⟩
    | some reason =>
      simp only [hr, Action.run_bind, run_onManaged] at h
      cases hc : (manager.close.run p.managed).answer <;> simp [hc] at h

theorem run_begin {owner : String} {ns : List Entry}
    (h : (Shared.launch owner settings manager a).run p = ⟨.ok (.ok j), q, ns⟩) :
    (Shared.begin owner settings manager a).run p =
      ⟨.ok (((Shared.runTask j).run q).state.startOf j), ((Shared.runTask j).run q).state,
        ns ++ ((Shared.runTask j).run q).notices⟩ := by
  obtain ⟨q', ms, hrun⟩ := Shared.exists_run_stepTaskTimes q j Phase.retain.stepsLeft
  simp only [Shared.begin, Shared.runTask, Action.run_bind_of_ok h, Action.run_bind_of_ok hrun,
    hrun, Action.run_bind, Action.run_read, Action.run_pure, List.append_nil]

theorem startOf_of_fired {t : Task σ} (ht : p.tasks[j]? = some t)
    (hf : t.established.signal = .fired) : p.startOf j = .established j := by
  simp [Shared.startOf, ht, hf]

theorem startOf_of_ended {t : Task σ} {e : Option Fault} (ht : p.tasks[j]? = some t)
    (ha : t.established.signal = .abandoned) (hp : t.phase = .ended e) :
    p.startOf j = .failed e := by
  simp [Shared.startOf, ht, ha, Task.fault?, hp]

/-- A task that was asked for and is let run confirms the pin and waits, or ends before that. -/
theorem exists_task_of_launch {ns : List Entry}
    (h : (Shared.launch w.thread settings manager a).run p = ⟨.ok (.ok j), q, ns⟩) :
    ∃ t, ((Shared.runTask j).run q).state.tasks[j]? = some t ∧
      ((t.established.signal = .fired ∧ t.phase = .await) ∨
        t.established.signal = .abandoned ∧ ∃ e, t.phase = .ended e) := by
  -- whoever lets a task run leaves `terminate` alone
  obtain ⟨t, ht, ⟨hc, harmed⟩, hrest⟩ :=
    Shared.exists_task_stepTaskTimes (P := fun t => t.Coherent ∧ t.terminate.signal = .armed)
      (fun h ht => ⟨h.coherent ht.1, h.terminate ▸ ht.2⟩) (run_launch_ok h).2 ⟨rfl, rfl⟩
      (Nat.le_refl _)
  exact ⟨t, ht, hc.rests harmed hrest⟩

/-- A guard comes out of a pin only with a task that waits. -/
theorem isNew_of_establish {ms : List Entry}
    (h : (Guard.establish w.thread settings manager a).run p = ⟨.ok (.ok g), q, ms⟩) :
    g.IsNew q := by
  rcases hl : (Shared.launch w.thread settings manager a).run p with ⟨e | refusal | j, p', ns⟩
  · rw [Guard.establish, Shared.begin,
      Action.run_bind_of_error (Action.run_bind_of_error hl)] at h
    cases h
  · rw [Guard.establish, Shared.begin, Action.run_bind_of_ok (Action.run_bind_of_ok hl)] at h
    cases h
  · obtain ⟨t, ht, hrest⟩ := exists_task_of_launch hl
    rw [Guard.establish, Action.run_bind_of_ok (run_begin hl)] at h
    rcases hrest with ⟨hf, hwait⟩ | ⟨ha, e, hp⟩
    · rw [startOf_of_fired ht hf] at h
      cases h
      exact ⟨rfl, j, t, rfl, ht, hwait⟩
    · rw [startOf_of_ended ht ha hp] at h
      cases e <;> cases h

/-- An owner whose task has confirmed the pin goes on with the guard. -/
theorem leads_passPin {t : Task σ} (hs : w.stage = .awaitingPin j a cleanup)
    (ht : p.tasks[j]? = some t) (hf : t.established.signal = .fired) :
    Leads w p (w.goTo (.cleaningUp (.ok (.ok (Guard.of a j))) cleanup)) p
      [⟨w.thread, .pinned a⟩] := by
  refine .step ?_ ?_
  · simp [isReady, hs, Shared.isPinOpen, ht, hf]
  · simp only [step, hs, passPin, Action.run_bind, Action.run_read, Shared.startOf, ht, hf, if_true,
      Action.run_note, Action.run_pure, List.nil_append, List.append_nil]

/-- An owner whose task has ended without a pin goes on with its fault. -/
theorem leads_joinFailed {t : Task σ} {e : Option Fault} (hs : w.stage = .awaitingPin j a cleanup)
    (ht : p.tasks[j]? = some t) (ha : t.established.signal = .abandoned)
    (hp : t.phase = .ended e) :
    Leads w p (w.goTo (.cleaningUp (.error (e.getD (.pinUnconfirmed a))) cleanup)) p [] := by
  have hpass : Leads w p (w.goTo (.joiningFailed j a cleanup)) p [] := by
    refine .step ?_ ?_
    · simp [isReady, hs, Shared.isPinOpen, ht, ha]
    · simp only [step, hs, passPin, Action.run_bind, Action.run_read, Shared.startOf, ht, ha,
        reduceCtorEq, if_false, Action.run_pure, List.append_nil]
  refine hpass.trans (.step ?_ ?_)
  · simp [isReady, goTo, Shared.hasEnded, ht, hp]
  · have hfault : p.faultOf j = e := by simp [Shared.faultOf, Task.fault?, ht, hp]
    simp only [step, goTo, Action.run_bind, Action.run_read, hfault, Action.run_pure,
      List.append_nil]

/-- From where it asks for a task to where it cleans up, an owner can do as `Guard.establish`
does. -/
theorem leads_establish {made : Except Fault (Except Refusal Guard)} {ms : List Entry}
    (hs : w.stage = .launching settings manager a cleanup)
    (h : (Guard.establish w.thread settings manager a).run p = ⟨made, q, ms⟩) :
    Leads w p (w.goTo (.cleaningUp made cleanup)) q ms := by
  have hr : w.isReady p = true := by simp only [isReady, hs]
  have hstep : w.step = w.launch settings manager a cleanup := by simp only [step, hs]
  rcases hl : (Shared.launch w.thread settings manager a).run p with ⟨e | refusal | j, p', ns⟩
  · rw [Guard.establish, Shared.begin,
      Action.run_bind_of_error (Action.run_bind_of_error hl)] at h
    cases h
    refine .step hr ?_
    simp only [hstep, launch, Action.run_bind, Action.run_attempt, hl, Action.run_pure,
      List.append_nil]
  · rw [Guard.establish, Shared.begin, Action.run_bind_of_ok (Action.run_bind_of_ok hl)] at h
    cases h
    refine .step hr ?_
    simp only [hstep, launch, Action.run_bind, Action.run_attempt, hl, Action.run_pure,
      Action.run_note, List.append_nil]
  · obtain ⟨rfl, -⟩ := run_launch_ok hl
    have hlaunch : Leads w p (w.goTo (.awaitingPin j a cleanup)) p' [] := by
      refine .step hr ?_
      simp only [hstep, launch, Action.run_bind, Action.run_attempt, hl, Action.run_pure,
        List.append_nil]
    have hwait := hlaunch.trans (.tasks _ p' j Phase.retain.stepsLeft)
    obtain ⟨t, ht, hrest⟩ := exists_task_of_launch hl
    rw [Guard.establish, Action.run_bind_of_ok (run_begin hl)] at h
    rcases hrest with ⟨hf, -⟩ | ⟨ha, e, hp⟩
    · rw [startOf_of_fired ht hf] at h
      cases h
      exact hwait.trans (leads_passPin rfl ht hf)
    · rw [startOf_of_ended ht ha hp] at h
      have hjoin := hwait.trans (leads_joinFailed rfl ht ha hp)
      cases e with
      | none =>
        cases h
        exact hjoin
      | some e =>
        cases h
        exact hjoin

/-- The owner once it knows what came of a pin and has cleaned up. -/
def completed (w : Owner σ ρ) : Except Fault (Except Refusal Guard) → Owner σ ρ
  | .error e => w.finish (.fault e)
  | .ok (.error refusal) => w.finish (.refused refusal)
  | .ok (.ok g) => { w with guards := w.guards ++ [g] }.finish (.made w.guards.length)

/-- Where cleaning up fails, a guard that was made is dropped. -/
theorem leads_cleanUp_of_error {made : Except Fault (Except Refusal Guard)} {e : Fault} {m : σ}
    {ls : List Notice} (hs : w.stage = .cleaningUp made cleanup)
    (hnew : ∀ g, made = .ok (.ok g) → g.IsNew p)
    (h : cleanup.run p.managed = ⟨.error e, m, ls⟩) :
    ∃ q ns,
      (Guard.handOver w.thread made (.error e)).run { p with managed := m } = ⟨.error e, q, ns⟩ ∧
      Leads w p (w.finish (.fault e)) q (ls.map (Entry.mk w.thread) ++ ns) := by
  have hr : w.isReady p = true := by simp only [isReady, hs]
  rcases made with e' | refusal | g
  · refine ⟨_, [], rfl, .step hr ?_⟩
    simp only [step, hs, cleanUp, Action.run_bind, Action.run_attempt, run_onManaged, h,
      Action.run_pure]
  · refine ⟨_, [], rfl, .step hr ?_⟩
    simp only [step, hs, cleanUp, Action.run_bind, Action.run_attempt, run_onManaged, h,
      Action.run_pure]
  · have hstep : Leads w p (w.goTo (.dropping g e)) { p with managed := m }
        (ls.map (Entry.mk w.thread)) := by
      refine .step hr ?_
      simp only [step, hs, cleanUp, Action.run_bind, Action.run_attempt, run_onManaged, h,
        Action.run_pure, List.append_nil]
    obtain ⟨hslot, hwaits⟩ := hnew g rfl
    obtain ⟨q, ns, hrun, hdrop⟩ := leads_drop (w := w.goTo (.dropping g e))
      (p := { p with managed := m }) rfl ⟨hslot, hwaits⟩
    refine ⟨q, ns, ?_, hstep.trans hdrop⟩
    have hrun : (Guard.drop w.thread g).run { p with managed := m } = ⟨.ok (), q, ns⟩ := hrun
    simp only [Guard.handOver, Action.run_bind_of_ok hrun, Action.run_fail, List.append_nil]

/-- Where cleaning up succeeds, what came of the pin is the outcome. -/
theorem leads_cleanUp_of_ok {made : Except Fault (Except Refusal Guard)} {m : σ}
    {ls : List Notice} (hs : w.stage = .cleaningUp made cleanup)
    (h : cleanup.run p.managed = ⟨.ok (), m, ls⟩) :
    Leads w p (w.completed made) { p with managed := m } (ls.map (Entry.mk w.thread)) := by
  refine .step (by simp only [isReady, hs]) ?_
  simp only [step, hs, cleanUp, Action.run_bind, Action.run_attempt, run_onManaged, h]
  rcases made with e | refusal | g <;> simp only [Action.run_pure, List.append_nil] <;> rfl

/-- An owner can make a guard as `Guard.establishBetween` does. -/
theorem leads_establishBetween {prepare : Action Notice σ Nat} {program : List (Command σ ρ)}
    (hs : w.stage = .idle) (hp : w.program = .pin settings manager prepare cleanup :: program)
    {made : Except Fault (Except Refusal Guard)} {ns : List Entry}
    (h : (Guard.establishBetween w.thread settings manager prepare cleanup).run p =
      ⟨made, q, ns⟩) : Leads w p ({ w with program }.completed made) q ns := by
  have hr : w.isReady p = true := by simp [isReady, hs, hp]
  rcases hprepare : prepare.run p.managed with ⟨e | a, m, ns₁⟩
  · rw [Guard.run_establishBetween_of_error hprepare] at h
    cases h
    refine .step hr ?_
    simp only [step, hs, hp, begin, Action.run_bind, Action.run_attempt, run_onManaged, hprepare,
      Action.run_pure, List.append_nil]
    rfl
  · have hfirst : Leads w p ({ w with program }.goTo (.launching settings manager a cleanup))
        { p with managed := m } (ns₁.map (Entry.mk w.thread)) := by
      refine .step hr ?_
      simp only [step, hs, hp, begin, Action.run_bind, Action.run_attempt, run_onManaged, hprepare,
        Action.run_pure, List.append_nil]
    rcases hmade : (Guard.establish w.thread settings manager a).run { p with managed := m } with
      ⟨made', q', ns₂⟩
    have hmaking := hfirst.trans (leads_establish rfl hmade)
    rcases hclean : cleanup.run q'.managed with ⟨e | u, m', ns₃⟩
    · have hnew : ∀ g, made' = .ok (.ok g) → g.IsNew q' := by
        rintro g rfl
        exact isNew_of_establish hmade
      obtain ⟨q'', ns₄, hover, hcleaning⟩ := leads_cleanUp_of_error
        (w := { w with program }.goTo (.cleaningUp made' cleanup)) rfl hnew hclean
      have hall := hmaking.trans hcleaning
      rw [List.append_assoc] at hall
      rw [Guard.run_establishBetween hprepare hmade hclean hover] at h
      cases h
      exact hall
    · have hall := hmaking.trans (leads_cleanUp_of_ok rfl hclean)
      rw [List.append_assoc] at hall
      rw [Guard.run_establishBetween hprepare hmade hclean (Guard.run_handOver_ok _ _ _),
        List.append_nil] at h
      cases h
      exact hall

/-! ## Commands -/

/-- The owner can do what the command does as one block. -/
def Carries (w : Owner σ ρ) (p : Shared σ) (program : List (Command σ ρ)) (c : Command σ ρ) :
    Prop :=
  ∃ r guards q ns, (c.run w.thread).run (w.guards, p) = ⟨.ok r, (guards, q), ns⟩ ∧
    Leads w p ({ w with program, guards }.finish r) q ns

variable {program : List (Command σ ρ)} {slot : Slot}

theorem carries_act {x : Action Notice σ ρ} (hs : w.stage = .idle)
    (hp : w.program = .act x :: program) : Carries w p program (.act x) := by
  refine ⟨_, _, _, _, rfl, .step (by simp [isReady, hs, hp]) ?_⟩
  simp only [step, hs, hp, begin]
  rfl

/-- A command to a guard that there is not. -/
theorem run_guardCommand_none {guards : List Guard} (x : GuardAction σ Unit)
    (hg : guards[k]? = none) :
    (do return Command.guardResult (← Action.attempt (Holdings.onGuard k x)) :
      Action Entry (Holdings σ) (Result ρ)).run (guards, p) = ⟨.ok .noGuard, (guards, p), []⟩ := by
  have honGuard : (Holdings.onGuard k x).run (guards, p) = ⟨.ok none, (guards, p), []⟩ := by
    rw [Action.run]
    simp only [Holdings.onGuard, hg]
  simp only [Action.run_bind, Action.run_attempt, honGuard, Action.run_pure, List.append_nil]
  rfl

/-- A command to a guard is what it does to the guard. -/
theorem run_guardCommand {guards : List Guard} (x : GuardAction σ Unit) {r : Except Fault Unit}
    {ns : List Entry} (hg : guards[k]? = some g) (hx : x.run (g, p) = ⟨r, (g', q), ns⟩) :
    (do return Command.guardResult (← Action.attempt (Holdings.onGuard k x)) :
      Action Entry (Holdings σ) (Result ρ)).run (guards, p) =
      ⟨.ok (.ofExcept (fun _ => .done) r), (guards.set k g', q), ns⟩ := by
  have honGuard : (Holdings.onGuard k x).run (guards, p) =
      ⟨r.map some, (guards.set k g', q), ns⟩ := by
    rw [Action.run] at hx ⊢
    simp only [Holdings.onGuard, hg, hx]
  simp only [Action.run_bind, Action.run_attempt, honGuard, Action.run_pure, List.append_nil]
  cases r <;> rfl

theorem carries_store (hs : w.stage = .idle) (hp : w.program = .store k slot :: program) :
    Carries w p program (.store k slot) := by
  have hr : w.isReady p = true := by simp [isReady, hs, hp]
  have hstep : w.step = ({ w with program } : Owner σ ρ).begin (.store k slot) := by
    simp only [step, hs, hp]
  cases hg : w.guards[k]? with
  | none =>
    refine ⟨_, _, _, _, run_guardCommand_none _ hg, .step hr ?_⟩
    rw [hstep, begin]
    exact run_onGuard_none (w := { w with program }) _ _ hg
  | some g =>
    rcases hx : (Guard.store w.thread slot).run (g, p) with ⟨r, ⟨g', q⟩, ns⟩
    refine ⟨_, _, _, _, run_guardCommand _ hg hx, .step hr ?_⟩
    rw [hstep]
    rw [Action.run] at hx ⊢
    simp only [begin, onGuard, Holdings.onGuard, hg, hx]
    cases r <;> rfl

theorem carries_pin {prepare : Action Notice σ Nat} (hs : w.stage = .idle)
    (hp : w.program = .pin settings manager prepare cleanup :: program) :
    Carries w p program (.pin settings manager prepare cleanup) := by
  rcases h : (Guard.establishBetween w.thread settings manager prepare cleanup).run p with
    ⟨made, q, ns⟩
  have hleads := leads_establishBetween hs hp h
  rcases made with e | refusal | g
  · refine ⟨_, _, _, _, ?_, hleads⟩
    simp only [Command.run, Action.run_bind, Action.run_attempt, Action.run_within, Place.snd, h,
      Action.run_pure, List.append_nil]
  · refine ⟨_, _, _, _, ?_, hleads⟩
    simp only [Command.run, Action.run_bind, Action.run_attempt, Action.run_within, Place.snd, h,
      Action.run_pure, List.append_nil]
  · have hkeep : (Holdings.keep g).run (w.guards, q) =
        ⟨.ok w.guards.length, (w.guards ++ [g], q), []⟩ := rfl
    refine ⟨_, _, _, _, ?_, hleads⟩
    simp only [Command.run, Action.run_bind, Action.run_attempt, Action.run_within, Place.snd, h,
      hkeep, Action.run_pure, List.append_nil]

theorem carries_release (hs : w.stage = .idle) (hp : w.program = .release k unwinding :: program)
    (hback : ∀ g, w.guards[k]? = some g → g.address ≠ 0 →
      ∃ j t, g.task = some j ∧ p.tasks[j]? = some t ∧ t.phase = .await) :
    Carries w p program (.release k unwinding) := by
  have hr : w.isReady p = true := by simp [isReady, hs, hp]
  have hstep : w.step = ({ w with program } : Owner σ ρ).begin (.release k unwinding) := by
    simp only [step, hs, hp]
  cases hg : w.guards[k]? with
  | none =>
    refine ⟨_, _, _, _, run_guardCommand_none _ hg, .step hr ?_⟩
    simp only [hstep, begin, hg]
    rfl
  | some g =>
    by_cases ha : g.address = 0
    · refine ⟨_, _, _, _, run_guardCommand _ hg (Guard.run_release_again ha), .step hr ?_⟩
      have hreleased : g.isReleased = true := beq_iff_eq.2 ha
      simp only [hstep, begin, hg, hreleased, if_true, set_self hg]
      rfl
    · obtain ⟨j, t, hj, ht, hwait⟩ := hback g hg ha
      rcases hx : (Guard.release w.thread unwinding).run (g, p) with ⟨r, ⟨g', q⟩, ns⟩
      exact ⟨_, _, _, _, run_guardCommand _ hg hx, leads_release hs hp hg ha hj ht hwait hx⟩

end Owner

namespace Threads

variable {s : Threads σ ρ} {i : Nat} {w : Owner σ ρ}

/-- The task behind a guard that has an address waits to be told to stop. -/
theorem Orderly.waits (hs : s.Orderly) (hw : s.owners[i]? = some w) {k : Nat} {g : Guard}
    (hg : w.guards[k]? = some g) (ha : g.address ≠ 0) :
    ∃ j t, g.task = some j ∧ s.shared.tasks[j]? = some t ∧ t.phase = .await := by
  obtain ⟨j, t, hj, ht, -, he⟩ := (hs.owner i w hw).guard k g hg ha
  exact ⟨j, t, hj, ht, (hs.await_of_claim (mem_claims_of_guard hw hg hj) ht he).1⟩

/-- Carrying out the next command of an owner as one block is one of the things that can
happen. -/
theorem Orderly.reaches_run (hs : s.Orderly) (hw : s.owners[i]? = some w) (hidle : w.stage = .idle)
    {c : Command σ ρ} {program : List (Command σ ρ)} (hp : w.program = c :: program) :
    ∃ r guards p ns, (c.run w.thread).run (w.guards, s.shared) = ⟨.ok r, (guards, p), ns⟩ ∧
      s.Reaches
        { shared := p
          owners := s.owners.set i ({ w with program, guards }.finish r)
          journal := s.journal ++ ns } := by
  have hcarries : w.Carries s.shared program c := by
    cases c with
    | act x => exact Owner.carries_act hidle hp
    | pin settings manager prepare cleanup => exact Owner.carries_pin hidle hp
    | store k slot => exact Owner.carries_store hidle hp
    | release k unwinding =>
      exact Owner.carries_release hidle hp fun g hg ha => hs.waits hw hg ha
  obtain ⟨r, guards, p, ns, hrun, hleads⟩ := hcarries
  exact ⟨r, guards, p, ns, hrun, hleads.reaches hw rfl⟩

/-- So is carrying out all of its commands, one block after the other. -/
theorem Orderly.reaches_runAll (hs : s.Orderly) (hw : s.owners[i]? = some w)
    (hidle : w.stage = .idle) {cs : List (Command σ ρ)} (hcs : w.program = cs) :
    ∃ rs guards p ns,
      (Command.runAll w.thread cs).run (w.guards, s.shared) = ⟨.ok rs, (guards, p), ns⟩ ∧
      s.Reaches
        { shared := p
          owners := s.owners.set i { w with program := [], guards, results := w.results ++ rs }
          journal := s.journal ++ ns } := by
  induction cs generalizing s w with
  | nil =>
    refine ⟨[], w.guards, s.shared, [], rfl, ?_⟩
    rw [List.append_nil, List.append_nil, ← hcs, Owner.set_self hw]
    exact .refl s
  | cons c cs ih =>
    obtain ⟨r, guards, p, ns, hrun, hreach⟩ := hs.reaches_run hw hidle hcs
    obtain ⟨rs, guards', q, ms, hrest, hreach'⟩ :=
      ih (hreach.orderly hs) (getElem?_set_self_of_some hw _) rfl rfl
    refine ⟨r :: rs, guards', q, ns ++ ms, ?_, ?_⟩
    · have hrest : (Command.runAll w.thread cs).run (guards, p) =
          ⟨.ok rs, (guards', q), ms⟩ := hrest
      simp only [Command.runAll, Action.run_bind_of_ok hrun, Action.run_bind_of_ok hrest,
        Action.run_pure, List.append_nil]
    · simp only [Owner.finish, List.set_set, List.append_assoc, List.singleton_append] at hreach'
      rw [hidle]
      exact hreach.trans hreach'

end Threads

end PinnedHeap
