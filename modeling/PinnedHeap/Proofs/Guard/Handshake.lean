import PinnedHeap.Proofs.Guard.Record

/-!
# The handshake of owners and tasks

`Threads.Handshake` is what a pin can rely on, in every run: what happens to it
follows a course, its owner tells its task to stop and never abandons it, and
nobody waits for a task that is stuck itself.

A guard that is released once more has been released to the end before. That
presumes that no guard is made of address zero, which is how a guard without an
address looks.
-/

namespace PinnedHeap

open Event (log mem_log_of_task?)

variable {σ ρ : Type}

/-! ## Guards without an address -/

/-- No guard of address zero is asked for. -/
def Command.NonNull : Command σ ρ → Prop
  | .pin _ _ prepare _ => ∀ m, (prepare.run m).answer ≠ .ok 0
  | _ => True

/-- The address that a guard is made of is not zero. -/
def Stage.NonNull : Stage σ → Prop
  | .launching _ _ a _ => a ≠ 0
  | .awaitingPin _ a _ => a ≠ 0
  | .cleaningUp (.ok (.ok g)) _ => g.address ≠ 0
  | .dropping g _ => g.address ≠ 0
  | _ => True

/-- The owner makes no guard of address zero. -/
structure Owner.NonNull (w : Owner σ ρ) : Prop where
  program : ∀ c ∈ w.program, c.NonNull
  stage : w.stage.NonNull

/-- No owner makes a guard of address zero. -/
def Threads.NonNull (s : Threads σ ρ) : Prop := ∀ w ∈ s.owners, w.NonNull

/-- The task that has been told to stop by a release that is under way, and why. -/
def Stage.leaves? : Stage σ → Option (Nat × Cause)
  | .awaitingRelease j _ cause => some (j, cause)
  | .joining j _ cause => some (j, cause)
  | _ => none

/-- Every guard without an address is being released, or has been. -/
def Owner.Retires (i : Nat) (es : List (Event ρ)) (w : Owner σ ρ) : Prop :=
  ∀ (k : Nat) (g : Guard), w.guards[k]? = some g → g.address = 0 →
    w.stage.unpins? = some k ∨ ∃ j unwinding, .told i (.asked k unwinding) j ∈ es ∧
      (w.stage.leaves? = some (j, .asked k unwinding) ∨
        ∃ r, .released i j (.asked k unwinding) r ∈ es)

namespace Owner

variable {w w' : Owner σ ρ} {p p' : Shared σ} {i : Nat} {es fs : List (Event ρ)}

theorem Steps.nonNull (h : Steps w p w' p') (hw : w.NonNull) : w'.NonNull where
  program c hc := hw.program c (h.program hc)
  stage := by
    have hstage := hw.stage
    cases h with
    | @prepare settings manager prepare cleanup program a hs hp ha =>
      rintro rfl
      have hne : Command.NonNull (.pin settings manager prepare cleanup) :=
        hw.program _ (hp ▸ List.mem_cons_self)
      exact hne _ ha
    | launch hs hr =>
      rw [hs] at hstage
      exact hstage
    | passPin hs ht hf =>
      rw [hs] at hstage
      exact hstage
    | cleanUpDrops hs he =>
      rw [hs] at hstage
      exact hstage
    | _ => trivial

/-- Guards lose their addresses when they are released. -/
theorem Steps.address_cases (h : Steps w p w' p') (hw : w.NonNull) {k : Nat} {g : Guard}
    (hg : w'.guards[k]? = some g) (ha : g.address = 0) :
    (∃ x, w.guards[k]? = some x ∧ x.address = 0) ∨ w'.stage.unpins? = some k := by
  have hstage := hw.stage
  cases h with
  | store hs hp hx hb hne =>
    rcases getElem?_set_eq_some hx hg with ⟨rfl, rfl⟩ | ⟨-, hg⟩
    · exact absurd ha hne
    · exact .inl ⟨g, hg, ha⟩
  | release hs hp hx hne =>
    rcases getElem?_set_eq_some hx hg with ⟨rfl, rfl⟩ | ⟨-, hg⟩
    · exact .inr rfl
    · exact .inl ⟨g, hg, ha⟩
  | @clear l a u x slot hs hx hslot =>
    rcases getElem?_set_eq_some hx hg with ⟨rfl, rfl⟩ | ⟨-, hg⟩
    · exact .inl ⟨x, hx, ha⟩
    · exact .inl ⟨g, hg, ha⟩
  | @tell l a u x j hs hx ht =>
    rcases getElem?_set_eq_some hx hg with ⟨rfl, rfl⟩ | ⟨-, hg⟩
    · exact .inl ⟨x, hx, ha⟩
    · exact .inl ⟨g, hg, ha⟩
  | made hs hc =>
    rw [hs] at hstage
    rcases getElem?_append_singleton hg with hg | ⟨-, rfl⟩
    · exact .inl ⟨g, hg, ha⟩
    · exact absurd ha hstage
  | _ => exact .inl ⟨g, hg, ha⟩

/-- A release that has begun goes on until it has told the task. -/
theorem Steps.unpins (h : Steps w p w' p') (hw : w.Orderly p) (i : Nat) {k : Nat}
    (hk : w.stage.unpins? = some k) :
    w'.stage.unpins? = some k ∨
      ∃ j unwinding, .told i (.asked k unwinding) j ∈ w.events i w' ∧
        w'.stage.leaves? = some (j, .asked k unwinding) := by
  cases h with
  | clear hs hg hslot =>
    rw [hs] at hk
    exact .inl hk
  | clearUnbound hs hg hslot =>
    rw [hs] at hk
    exact .inl hk
  | @tell l a u g j hs hg ht =>
    rw [hs] at hk
    cases hk
    refine .inr ⟨j, u, ?_, rfl⟩
    simp [Owner.events, goTo, hs]
  | clearNone hs hg => exact absurd (.inl hg) (hw.not_lost (.inl hs))
  | tellNone hs hg => exact absurd (.inl hg) (hw.not_lost (.inr hs))
  | tellNobody hs hg ht => exact absurd (.inr ⟨_, hg, ht⟩) (hw.not_lost (.inr hs))
  | _ => simp_all [Stage.unpins?]

/-- It goes on until it has ended. -/
theorem Steps.leaves (h : Steps w p w' p') (i : Nat) {j : Nat} {cause : Cause}
    (hj : w.stage.leaves? = some (j, cause)) :
    w'.stage.leaves? = some (j, cause) ∨ ∃ r, .released i j cause r ∈ w.events i w' := by
  cases h with
  | passRelease hs hr =>
    rw [hs] at hj
    exact .inl hj
  | join hs he =>
    rw [hs] at hj
    cases hj
    simp [Owner.events, finish, hs]
  | _ => simp_all [Stage.leaves?]

theorem Retires.mono (h : w.Retires i es) : w.Retires i (es ++ fs) := by
  intro k g hg ha
  refine (h k g hg ha).imp id ?_
  rintro ⟨j, u, htold, hdone⟩
  refine ⟨j, u, List.mem_append_left fs htold, hdone.imp id ?_⟩
  rintro ⟨r, hr⟩
  exact ⟨r, List.mem_append_left fs hr⟩

theorem Steps.retires (h : Steps w p w' p') (hw : w.Orderly p) (hn : w.NonNull)
    (hr : w.Retires i es) : w'.Retires i (es ++ w.events i w') := by
  intro k g hg ha
  rcases h.address_cases hn hg ha with ⟨x, hx, hxa⟩ | hk
  swap
  · exact .inl hk
  rcases hr k x hx hxa with hk | ⟨j, u, htold, hj | ⟨r, hdone⟩⟩
  · refine (h.unpins hw i hk).imp id ?_
    rintro ⟨j, u, htold, hj⟩
    exact ⟨j, u, List.mem_append_right es htold, .inl hj⟩
  · refine .inr ⟨j, u, List.mem_append_left _ htold, (h.leaves i hj).imp id ?_⟩
    rintro ⟨r, hdone⟩
    exact ⟨r, List.mem_append_right es hdone⟩
  · exact .inr ⟨j, u, List.mem_append_left _ htold, .inr ⟨r, List.mem_append_left _ hdone⟩⟩

end Owner

namespace Threads

variable {s s₀ t : Threads σ ρ} {es fs : List (Event ρ)}

/-- Whenever a guard without an address was released, an earlier release of that guard had told
its task and come to its end. -/
def Repeats (es : List (Event ρ)) : Prop :=
  ∀ n i k, es[n]? = some (.again i k) → ∃ j unwinding r,
    .told i (.asked k unwinding) j ∈ es.take n ∧ .released i j (.asked k unwinding) r ∈ es.take n

theorem Repeats.append (h : Repeats es)
    (hfs : ∀ i k, .again i k ∈ fs → ∃ j unwinding r,
      .told i (.asked k unwinding) j ∈ es ∧ .released i j (.asked k unwinding) r ∈ es) :
    Repeats (es ++ fs) := by
  intro n i k hn
  rcases Nat.lt_or_ge n es.length with hlt | hge
  · rw [List.getElem?_append_left hlt] at hn
    rw [List.take_append_of_le_length (Nat.le_of_lt hlt)]
    exact h n i k hn
  · rw [List.getElem?_append_right hge] at hn
    obtain ⟨j, u, r, htold, hdone⟩ := hfs i k (List.mem_of_getElem? hn)
    have hsub : es ⊆ (es ++ fs).take n := by
      rw [List.take_append, List.take_of_length_le hge]
      exact List.subset_append_left es _
    exact ⟨j, u, r, hsub htold, hsub hdone⟩

/-- Guards without an address are on record as released. -/
structure Retired (es : List (Event ρ)) (s : Threads σ ρ) : Prop where
  nonNull : s.NonNull
  owner : ∀ (i : Nat) (w : Owner σ ρ), s.owners[i]? = some w → w.Retires i es
  repeats : Repeats es

/-- A guard that is released once more has been released to the end. -/
theorem Retired.again (hr : s.Retired es) {i k l : Nat} {w w' : Owner σ ρ} {p : Shared σ}
    (hw : s.owners[i]? = some w) (hm : Owner.Marks i w s.shared w' p fs)
    (hmem : .again l k ∈ fs) :
    ∃ j unwinding r,
      .told l (.asked k unwinding) j ∈ es ∧ .released l j (.asked k unwinding) r ∈ es := by
  cases hm with
  | again hs hg ha hs' hp =>
    cases List.mem_singleton.1 hmem
    rcases hr.owner i w hw k _ hg ha with hk | ⟨j, u, htold, hj | ⟨r, hdone⟩⟩
    · rw [hs] at hk
      cases hk
    · rw [hs] at hj
      cases hj
    · exact ⟨j, u, r, htold, hdone⟩
  | _ => simp at hmem

theorem Moves.nonNull {a : Actor} (h : Moves s a t) (hn : s.NonNull) : t.NonNull := by
  cases a with
  | owner i =>
    obtain ⟨w, w', hw, hstep, howners, -⟩ := h.owner_events
    intro x hx
    rw [howners] at hx
    rcases List.mem_or_eq_of_mem_set hx with hx | rfl
    · exact hn x hx
    · exact hstep.nonNull (hn w (List.mem_of_getElem? hw))
  | task j =>
    obtain ⟨v, v', p, -, -, -, howners, -⟩ := h.task_events
    rw [NonNull, howners]
    exact hn

theorem Moves.retired {a : Actor} (h : Moves s a t) (hs : s.Orderly) (hr : s.Retired es) :
    t.Retired (es ++ s.events a t) := by
  cases a with
  | owner i =>
    obtain ⟨w, w', hw, hstep, howners, hevents⟩ := h.owner_events
    have hmem := List.mem_of_getElem? hw
    have horderly := hs.owner i w hw
    rw [hevents]
    refine ⟨h.nonNull hr.nonNull, ?_, hr.repeats.append fun l k =>
      hr.again hw (hstep.marks horderly i)⟩
    intro l x hx
    rw [howners] at hx
    rcases getElem?_set_eq_some hw hx with ⟨rfl, rfl⟩ | ⟨-, hx⟩
    · exact hstep.retires horderly (hr.nonNull w hmem) (hr.owner l w hw)
    · exact (hr.owner l x hx).mono
  | task j =>
    obtain ⟨v, v', p, hv, hstep, hshared, howners, hevents⟩ := h.task_events
    rw [hevents]
    refine ⟨h.nonNull hr.nonNull, ?_, hr.repeats.append ?_⟩
    · intro l x hx
      exact (hr.owner l x (howners ▸ hx)).mono
    · intro l k hmem
      rcases Task.mem_events hmem with ⟨r, he⟩ | ⟨r, he⟩ | he <;> cases he

theorem Traces.repeats (h : Traces s₀ es t) (h₀ : s₀.Fresh) (hn : s₀.NonNull) : Repeats es := by
  have hretired : t.Retired es := by
    induction h with
    | refl =>
      refine ⟨hn, ?_, fun n i k hk => by cases hk⟩
      intro i w hw k g hg
      rw [(h₀.owner i w hw).1] at hg
      cases hg
    | step a h ha ih => exact (moves_of_step? ha).retired (h.reaches.orderly h₀.orderly) ih
  exact hretired.repeats

/-! ## Nobody waits in vain -/

/-- A task that has neither confirmed the pin nor ended is at work on it. -/
theorem Orderly.isReady_of_claim (hs : s.Orderly) {j : Nat} {v : Task σ} (hclaim : j ∈ s.claims)
    (hv : s.shared.tasks[j]? = some v) (he : v.established.signal = .armed) :
    v.isReady = true := by
  have harmed := hs.armed_of_claim hclaim hv
  have hcoherent := hs.coherent j v hv
  unfold Task.Coherent at hcoherent
  cases hp : v.phase with
  | await => simp [hp, he] at hcoherent
  | ended fault => simp [hp, he, harmed] at hcoherent
  | _ => simp [Task.isReady, hp]

/-- A task that was told to stop can take a step, or has ended. -/
theorem Recorded.task_step (hr : s.Recorded es) {i j : Nat} {cause : Cause}
    (htold : .told i cause j ∈ es) :
    s.shared.Ended j ∨ ∃ u, s.step? (.task j) = some u := by
  obtain ⟨v, hv⟩ := hr.shared.exists_task rfl htold
  by_cases hended : ∃ fault, v.phase = .ended fault
  · obtain ⟨fault, hp⟩ := hended
    exact .inl ⟨v, fault, hv, hp⟩
  · refine .inr (exists_step?_task hv ?_)
    exact (hr.shared.task j v hv).isReady_of_told ((mem_log_of_task? rfl).2 htold)
      fun fault hp => hended ⟨fault, hp⟩

theorem Recorded.progress (hr : s.Recorded es) (hs : s.Orderly) {i j : Nat} {w : Owner σ ρ}
    (hw : s.owners[i]? = some w) (hj : w.stage.waitsFor? = some j) :
    (∃ u, s.step? (.owner i) = some u) ∨ ∃ u, s.step? (.task j) = some u := by
  have hstage := (hr.owner i w hw).stage
  have horderly := (hs.owner i w hw).stage
  cases hstage' : w.stage with
  | awaitingPin l a cleanup =>
    rw [hstage'] at hj horderly
    cases hj
    obtain ⟨v, hv, -⟩ := horderly
    by_cases he : v.established.signal = .armed
    · have hclaim : j ∈ s.claims := mem_claims_of_stage hw (by rw [hstage']; rfl)
      exact .inr (exists_step?_task hv (hs.isReady_of_claim hclaim hv he))
    · refine .inl (exists_step?_owner hw ?_)
      simp [Owner.isReady, hstage', Shared.isPinOpen, hv, he]
  | joiningFailed l a cleanup =>
    rw [hstage'] at hj hstage
    cases hj
    refine .inl (exists_step?_owner hw ?_)
    simp [Owner.isReady, hstage', hstage.1.hasEnded]
  | awaitingRelease l a cause =>
    rw [hstage'] at hj hstage
    cases hj
    have htold := hstage.1
    refine (hr.task_step htold).imp ?_ id
    rintro ⟨v, fault, hv, hp⟩
    refine exists_step?_owner hw ?_
    have hopen : v.unwound.signal ≠ .armed :=
      (hr.shared.task j v hv).not_open_of_ended hp ⟨i, cause, (mem_log_of_task? rfl).2 htold⟩
    simp [Owner.isReady, hstage', Shared.isReleaseOpen, hv, hopen]
  | joining l a cause =>
    rw [hstage'] at hj hstage
    cases hj
    refine (hr.task_step hstage.1).imp ?_ id
    intro hended
    refine exists_step?_owner hw ?_
    simp [Owner.isReady, hstage', hended.hasEnded]
  | _ =>
    rw [hstage'] at hj
    cases hj

/-! ## The handshake -/

/-- What can be relied on when `es` has happened and has led to `t`. -/
structure Handshake (es : List (Event ρ)) (t : Threads σ ρ) : Prop where
  /-- What happens to a pin is the beginning of one of the two courses. -/
  course : ∀ j, ∃ course, Event.Course j course ∧ log es j <+: course
  /-- Tasks act on what is managed by calling their managers, and what is told of a call is what
  has come of it. -/
  called : ∀ j v u, t.shared.tasks[j]? = some v → t.step? (.task j) = some u → t.Calls j v u
  /-- The first thing that a task does is to call `retain`. -/
  retained : ∀ j v, t.shared.tasks[j]? = some v → v.phase = .retain ∨ ∃ r, .retained j r ∈ es
  /-- A guard with a task was made when the pin of that task was established. -/
  made : ∀ i k j g, t.guard? i k = some g → g.task = some j →
    ∃ a, .constructed i j (.ok (.ok (.of a j))) ∈ es
  /-- Nobody abandons the gate `terminate`, and owners fire it when they tell a task to stop. -/
  terminate : ∀ j v, t.shared.tasks[j]? = some v → v.terminate.signal ≠ .abandoned ∧
    (v.terminate.signal = .fired ↔ ∃ i cause, .told i cause j ∈ es)
  /-- Every release finds the task that it has to tell. -/
  reached : ∀ i, .stranded i ∉ es
  /-- Where an owner waits for a task, one of the two can take a step. -/
  progress : ∀ i w j, t.owners[i]? = some w → w.stage.waitsFor? = some j →
    (∃ u, t.step? (.owner i) = some u) ∨ ∃ u, t.step? (.task j) = some u

/-- Whatever managers answer, and in whatever order owners and tasks take their steps: they
shake hands as they should, and a guard that is released once more has been released to the
end before. -/
theorem Traces.owners_and_tasks_shake_hands (h₀ : s₀.Fresh) (h : Traces s₀ es t) :
    Handshake es t ∧ (s₀.NonNull → Repeats es) := by
  have hs := h.reaches.orderly h₀.orderly
  have hr := h.recorded h₀
  refine ⟨?_, h.repeats h₀⟩
  constructor
  case course =>
    intro j
    cases hv : t.shared.tasks[j]? with
    | some v => exact (hr.shared.task j v hv).course
    | none =>
      rw [hr.shared.absent j hv]
      exact ⟨_, .pin 0 0 (.ok ()) (.asked 0 false), List.nil_prefix⟩
  case called => exact fun j v u => calls_of_step?
  case retained =>
    intro j v hv
    refine (hr.shared.task j v hv).retained.imp id ?_
    rintro ⟨r, hmem⟩
    exact ⟨r, (mem_log_of_task? rfl).1 hmem⟩
  case made =>
    intro i k j g hg hj
    obtain ⟨w, hw, hwg⟩ := guard?_eq_some.1 hg
    exact (hr.owner i w hw).guard k g j hwg hj
  case terminate =>
    intro j v hv
    obtain ⟨hne, hiff⟩ := (hr.shared.task j v hv).terminate
    refine ⟨hne, hiff.trans ?_⟩
    simp only [mem_log_of_task? (e := .told _ _ j) rfl]
  case reached => exact hr.stranded
  case progress =>
    intro i w j hw hj
    exact hr.progress hs hw hj

/-- An owner that releases a guard twice, whose manager holds an address but does not take it
back. -/
def grudging : Threads Unit Unit where
  shared := Shared.start ()
  owners := [{
    thread := "main"
    program := [
      .pin {} { Manager.unmanaged with unretain := fun _ _ => Action.fail (.refused "mine") }
        (pure 16) (pure ()),
      .release 0 false, .release 0 false] }]

theorem grudging_fresh : grudging.Fresh where
  tasks := rfl
  owner i w hw := by
    obtain rfl := List.mem_singleton.1 (List.mem_of_getElem? hw)
    exact ⟨rfl, rfl⟩

theorem grudging_nonNull : grudging.NonNull := by
  intro w hw
  obtain rfl := List.mem_singleton.1 hw
  refine ⟨?_, trivial⟩
  intro c hc
  simp only [List.mem_cons, List.not_mem_nil, or_false] at hc
  rcases hc with rfl | rfl | rfl
  · intro m hm
    cases hm
  · trivial
  · trivial

/-- The first release fails with the fault of the manager, the second one does nothing. -/
theorem grudging_shakes_hands :
    ∃ es t, Traces grudging es t ∧ Handshake es t ∧ Repeats es ∧
      es = Event.pin 0 0 16 (.error (.refused "mine")) (.asked 0 false) ++ [.again 0 0] := by
  let order : List Actor := [.owner 0, .owner 0, .task 0, .task 0, .task 0, .task 0, .owner 0,
    .owner 0, .owner 0, .owner 0, .owner 0, .task 0, .task 0, .owner 0, .owner 0, .owner 0]
  let run := (grudging.trace? [] order).get rfl
  have hrun : grudging.trace? [] order = some run := (Option.some_get _).symm
  have h : Traces grudging run.1 run.2 := Traces.refl.of_trace? hrun
  obtain ⟨hhandshake, hrepeats⟩ := Traces.owners_and_tasks_shake_hands grudging_fresh h
  exact ⟨run.1, run.2, h, hhandshake, hrepeats grudging_nonNull, rfl⟩

end Threads

end PinnedHeap
