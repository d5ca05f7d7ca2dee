import PinnedHeap.Proofs.Guard.Course

/-!
# What is on record

`Threads.Recorded` says that the phases of the tasks, the guards of the owners and
what these are in the middle of agree with all that has happened so far. It holds
in every run that begins afresh.
-/

namespace PinnedHeap

open Event (log mem_log_of_task?)

variable {σ ρ : Type}

/-- The task is there and has ended. -/
def Shared.Ended (p : Shared σ) (j : Nat) : Prop :=
  ∃ (v : Task σ) (fault : Option Fault), p.tasks[j]? = some v ∧ v.phase = .ended fault

theorem Shared.Grows.ended {p p' : Shared σ} (h : Shared.Grows p p') {j : Nat} (hj : p.Ended j) :
    p'.Ended j := by
  obtain ⟨v, fault, hv, hp⟩ := hj
  obtain ⟨v', hv', hcont⟩ := h j v hv
  have honward := hcont.onward
  rw [hp, Phase.stepsLeft] at honward
  cases hp' : v'.phase with
  | ended fault' => exact ⟨v', fault', hv', hp'⟩
  | _ => simp [hp', Phase.stepsLeft] at honward

theorem Shared.Ended.hasEnded {p : Shared σ} {j : Nat} (h : p.Ended j) : p.hasEnded j = true := by
  obtain ⟨v, fault, hv, hp⟩ := h
  simp [Shared.hasEnded, hv, hp]

theorem Shared.ended_of_hasEnded {p : Shared σ} {j : Nat} {v : Task σ}
    (hv : p.tasks[j]? = some v) (h : p.hasEnded j = true) : ∃ fault, v.phase = .ended fault := by
  simp only [Shared.hasEnded, hv] at h
  split at h
  · next fault hp => exact ⟨fault, hp⟩
  · cases h

/-- What has happened is as the phases of the tasks have it. -/
structure Shared.Recorded (es : List (Event ρ)) (p : Shared σ) : Prop where
  task : ∀ (j : Nat) (v : Task σ), p.tasks[j]? = some v → v.Follows j (log es j)
  absent : ∀ j : Nat, p.tasks[j]? = none → log es j = []

/-- What an owner is in the middle of agrees with what has happened. -/
def Stage.Recorded (i : Nat) (p : Shared σ) (es : List (Event ρ)) : Stage σ → Prop
  | .awaitingPin j _ _ => ∀ o made, .constructed o j made ∉ es
  | .joiningFailed j _ _ => p.Ended j ∧ ∀ o made, .constructed o j made ∉ es
  | .cleaningUp (.ok (.ok g)) _ =>
    ∀ j, g.task = some j → ∃ a, .constructed i j (.ok (.ok (.of a j))) ∈ es
  | .dropping g _ => ∀ j, g.task = some j → ∃ a, .constructed i j (.ok (.ok (.of a j))) ∈ es
  | .awaitingRelease j _ cause => .told i cause j ∈ es ∧ ∀ o c r, .released o j c r ∉ es
  | .joining j _ cause => .told i cause j ∈ es ∧ ∀ o c r, .released o j c r ∉ es
  | _ => True

/-- The guards of an owner, and what it is in the middle of, agree with what has happened. -/
structure Owner.Recorded (i : Nat) (p : Shared σ) (es : List (Event ρ)) (w : Owner σ ρ) :
    Prop where
  guard : ∀ (k : Nat) (g : Guard) (j : Nat), w.guards[k]? = some g → g.task = some j →
    ∃ a, .constructed i j (.ok (.ok (.of a j))) ∈ es
  waits : ∀ j, w.stage.waitsFor? = some j → .launched i j ∈ es
  stage : w.stage.Recorded i p es

/-- All that has happened is on record. -/
structure Threads.Recorded (es : List (Event ρ)) (s : Threads σ ρ) : Prop where
  shared : s.shared.Recorded es
  owner : ∀ (i : Nat) (w : Owner σ ρ), s.owners[i]? = some w → w.Recorded i s.shared es
  stranded : ∀ i, .stranded i ∉ es

theorem Stage.IsFree.waitsFor? {stage : Stage σ} (h : stage.IsFree) : stage.waitsFor? = none := by
  unfold IsFree at h
  split at h
  all_goals first | rfl | exact h.elim

theorem Stage.IsFree.recorded {stage : Stage σ} (h : stage.IsFree) {i : Nat} {p : Shared σ}
    {es : List (Event ρ)} : stage.Recorded i p es := by
  unfold IsFree at h
  split at h <;> trivial

namespace Owner

variable {w w' : Owner σ ρ} {p p' : Shared σ} {i j : Nat} {es fs : List (Event ρ)}

/-- Nobody else's steps take anything away from an owner's record. -/
theorem Recorded.mono (h : w.Recorded i p es) (hp : Shared.Grows p p')
    (hmade : ∀ j, w.stage.waitsFor? = some j → ∀ o made, .constructed o j made ∉ fs)
    (hdone : ∀ j, w.stage.waitsFor? = some j → ∀ o c r, .released o j c r ∉ fs) :
    w.Recorded i p' (es ++ fs) where
  guard k g j hg hj := by
    obtain ⟨a, ha⟩ := h.guard k g j hg hj
    exact ⟨a, List.mem_append_left fs ha⟩
  waits j hj := List.mem_append_left fs (h.waits j hj)
  stage := by
    have hstage := h.stage
    cases hs : w.stage with
    | awaitingPin j a cleanup =>
      rw [hs] at hstage
      intro o made hmem
      exact (List.mem_append.1 hmem).elim (hstage o made) (hmade j (by rw [hs]; rfl) o made)
    | joiningFailed j a cleanup =>
      rw [hs] at hstage
      refine ⟨hp.ended hstage.1, ?_⟩
      intro o made hmem
      exact (List.mem_append.1 hmem).elim (hstage.2 o made) (hmade j (by rw [hs]; rfl) o made)
    | awaitingRelease j a cause =>
      rw [hs] at hstage
      refine ⟨List.mem_append_left fs hstage.1, ?_⟩
      intro o c r hmem
      exact (List.mem_append.1 hmem).elim (hstage.2 o c r) (hdone j (by rw [hs]; rfl) o c r)
    | joining j a cause =>
      rw [hs] at hstage
      refine ⟨List.mem_append_left fs hstage.1, ?_⟩
      intro o c r hmem
      exact (List.mem_append.1 hmem).elim (hstage.2 o c r) (hdone j (by rw [hs]; rfl) o c r)
    | dropping g e =>
      rw [hs] at hstage
      intro j hj
      obtain ⟨a, ha⟩ := hstage j hj
      exact ⟨a, List.mem_append_left fs ha⟩
    | cleaningUp made cleanup =>
      rw [hs] at hstage
      match made, hstage with
      | .ok (.ok g), hstage =>
        intro j hj
        obtain ⟨a, ha⟩ := hstage j hj
        exact ⟨a, List.mem_append_left fs ha⟩
      | .ok (.error _), _ => trivial
      | .error _, _ => trivial
    | _ => trivial

/-- A guard with a task was made with it. -/
theorem Steps.recorded_guard (h : Steps w p w' p') (hw : w.Recorded i p es) (k : Nat) (g : Guard)
    (j : Nat) (hg : w'.guards[k]? = some g) (hj : g.task = some j) :
    ∃ a, .constructed i j (.ok (.ok (.of a j))) ∈ es := by
  rcases h.guard hg with ⟨x, hx, hhandles⟩ | ⟨cleanup, hs⟩
  · cases hhandles with
    | told hs hc => cases hj
    | _ => exact hw.guard k _ j hx hj
  · have hstage := hw.stage
    rw [hs] at hstage
    exact hstage j hj

end Owner

namespace Shared.Recorded

variable {p p' : Shared σ} {es fs : List (Event ρ)} {e : Event ρ} {j : Nat}

/-- What has happened is about no task. -/
theorem add_other (h : p.Recorded es) (hp : p'.tasks = p.tasks)
    (he : ∀ e ∈ fs, e.task? = none) : p'.Recorded (es ++ fs) := by
  have hlog : ∀ l, log (es ++ fs) l = log es l :=
    fun l => Event.log_append_of_ne fun e hmem => by simp [he e hmem]
  refine ⟨?_, ?_⟩
  · intro l v hv
    rw [hlog]
    exact h.task l v (hp ▸ hv)
  · intro l hl
    rw [hlog]
    exact h.absent l (hp ▸ hl)

/-- What has happened is about one task. -/
theorem add (h : p.Recorded es) (he : ∀ e ∈ fs, e.task? = some j)
    (hother : ∀ l, l ≠ j → p'.tasks[l]? = p.tasks[l]?) {v : Task σ} (hv : p'.tasks[j]? = some v)
    (hf : v.Follows j (log es j ++ fs)) : p'.Recorded (es ++ fs) := by
  have hlog : ∀ l, l ≠ j → log (es ++ fs) l = log es l :=
    fun l hl => Event.log_append_of_ne fun e hmem => by simp [he e hmem, Ne.symm hl]
  refine ⟨?_, ?_⟩
  · intro l x hx
    by_cases hl : l = j
    · subst hl
      rw [hv] at hx
      cases hx
      rw [Event.log_append he]
      exact hf
    · rw [hlog l hl]
      exact h.task l x (hother l hl ▸ hx)
  · intro l hl
    have hne : l ≠ j := by
      rintro rfl
      rw [hv] at hl
      cases hl
    rw [hlog l hne]
    exact h.absent l (hother l hne ▸ hl)

/-- Something has happened about a task that is where it was. -/
theorem add_event (h : p.Recorded es) (hp : p'.tasks = p.tasks) (he : e.task? = some j)
    {v : Task σ} (hv : p.tasks[j]? = some v) (hf : v.Follows j (log es j ++ [e])) :
    p'.Recorded (es ++ [e]) := by
  rw [← hp] at hv
  exact h.add (List.forall_mem_singleton.2 he) (fun l _ => by rw [hp]) hv hf

theorem exists_task (h : p.Recorded es) (he : e.task? = some j) (hmem : e ∈ es) :
    ∃ v, p.tasks[j]? = some v := by
  cases hv : p.tasks[j]? with
  | some v => exact ⟨v, rfl⟩
  | none =>
    have hlog := (mem_log_of_task? he).2 hmem
    rw [h.absent j hv] at hlog
    cases hlog

theorem launched_unique {i i' : Nat} (h : p.Recorded es) (hi : .launched i j ∈ es)
    (hi' : .launched i' j ∈ es) : i = i' := by
  obtain ⟨v, hv⟩ := h.exists_task rfl hi
  exact (h.task j v hv).launched_unique ((mem_log_of_task? rfl).2 hi) ((mem_log_of_task? rfl).2 hi')

end Shared.Recorded

namespace Threads

variable {s t : Threads σ ρ} {es fs : List (Event ρ)} {i : Nat} {w w' : Owner σ ρ} {p : Shared σ}

/-- A guard whose task is about to be told to stop was made with it. -/
theorem Recorded.made_of_stops (hr : s.Recorded es) (hw : s.owners[i]? = some w) {a j : Nat}
    {cause : Cause} {g : Guard} (hg : w.Stops g a cause) (ht : g.task = some j) :
    ∃ b, .constructed i j (.ok (.ok (.of b j))) ∈ es := by
  have hrec := hr.owner i w hw
  cases hg with
  | asked hs hg => exact hrec.guard _ g j hg ht
  | dropped hs =>
    have hstage := hrec.stage
    rw [hs] at hstage
    exact hstage j ht

/-- An owner that tells a task to stop has started that task, and knows of no release. -/
theorem Recorded.tell (hr : s.Recorded es) (hs : s.Orderly) (hw : s.owners[i]? = some w)
    {a j : Nat} {cause : Cause} {g : Guard} (hg : w.Stops g a cause) (ht : g.task = some j) :
    ∃ v, s.shared.tasks[j]? = some v ∧
      Task.Follows j { v with terminate := v.terminate.fire } (log es j ++ [.told i cause j]) ∧
      .launched i j ∈ es ∧ ∀ o c r, .released o j c r ∉ es := by
  obtain ⟨j', v, hj', hv, -, hf⟩ := hg.backed (hs.owner i w hw)
  rw [ht] at hj'
  cases hj'
  obtain ⟨hphase, harmed⟩ := hs.await_of_claim (hg.mem_claims hw ht) hv hf
  obtain ⟨b, hb⟩ := hr.made_of_stops hw hg ht
  obtain ⟨hfollows, hlaunched, hnew⟩ :=
    (hr.shared.task j v hv).tell hphase harmed ((mem_log_of_task? rfl).2 hb) cause
  refine ⟨v, hv, hfollows, (mem_log_of_task? rfl).1 hlaunched, ?_⟩
  intro o c r hmem
  exact hnew o c r ((mem_log_of_task? rfl).2 hmem)

/-- What has happened after a step of an owner is as the phases of the tasks have it. -/
theorem Recorded.shared_of_marks (hr : s.Recorded es) (hs : s.Orderly) (hw : s.owners[i]? = some w)
    (hm : Owner.Marks i w s.shared w' p fs) : p.Recorded (es ++ fs) := by
  have hrec := hr.owner i w hw
  have hstage := hrec.stage
  have hlaunched : ∀ {j}, w.stage.waitsFor? = some j → .launched i j ∈ log es j :=
    fun hj => (mem_log_of_task? rfl).2 (hrec.waits _ hj)
  cases hm with
  | nothing hs' hp => exact hr.shared.add_other hp (by simp)
  | missed hs hu hs' hp => exact hr.shared.add_other hp (by simp)
  | keptBack hs hs' hp => exact hr.shared.add_other hp (by simp)
  | unwound hs hs' hp => exact hr.shared.add_other hp (by simp)
  | again hs hg ha hs' hp => exact hr.shared.add_other hp (by simp [Event.task?])
  | @launched a u cleanup hs' hp hu ht hw =>
    have hnone : log es s.shared.tasks.length = [] :=
      hr.shared.absent _ (List.getElem?_eq_none (by simp))
    have hu' : p.tasks[s.shared.tasks.length]? = some u := by rw [hp, List.getElem?_concat_length]
    refine hr.shared.add (List.forall_mem_singleton.2 rfl) ?_ hu' ?_
    · intro l hl
      rw [hp]
      rcases Nat.lt_or_gt_of_ne hl with hlt | hgt
      · rw [List.getElem?_append_left hlt]
      · rw [List.getElem?_eq_none (by simp; omega), List.getElem?_eq_none (by omega)]
    · rw [hnone]
      exact Task.follows_of_launched hu ⟨ht, hw⟩
  | @constructed j a cleanup v hs₁ hv hf hs' hp =>
    rw [hs₁] at hstage
    have hclaim : j ∈ s.claims := mem_claims_of_stage hw (by rw [hs₁]; rfl)
    obtain ⟨hphase, harmed⟩ := hs.await_of_claim hclaim hv hf
    refine hr.shared.add_event hp rfl hv ?_
    refine (hr.shared.task j v hv).construct hphase harmed (hlaunched (by rw [hs₁]; rfl)) ?_
    intro o made hmem
    exact hstage o made ((mem_log_of_task? rfl).1 hmem)
  | @failed j a cleanup hs₁ he hs' hp =>
    rw [hs₁] at hstage
    obtain ⟨⟨v, fault, hv, hphase⟩, hnew⟩ := hstage
    have hfail := (hr.shared.task j v hv).fail hphase (hlaunched (by rw [hs₁]; rfl))
      fun o made hmem => hnew o made ((mem_log_of_task? rfl).1 hmem)
    obtain ⟨e, rfl, hfollows⟩ := hfail
    have hfault : s.shared.faultOf j = some e := by simp [Shared.faultOf, hv, Task.fault?, hphase]
    rw [hfault]
    exact hr.shared.add_event hp rfl hv hfollows
  | @told a j cause g hg ht hs' hp =>
    obtain ⟨v, hv, htell, -, -⟩ := hr.tell hs hw hg ht
    subst hp
    refine hr.shared.add (List.forall_mem_singleton.2 rfl) ?_ ?_ htell
    · intro l hl
      rw [Shared.tellTask, Shared.getElem?_modifyTask, if_neg hl]
    · exact Shared.getElem?_modifyTask_self hv _
  | @released j a cause hs₁ he hs' hp =>
    rw [hs₁] at hstage
    obtain ⟨htold, hnew⟩ := hstage
    obtain ⟨v, hv⟩ := hr.shared.exists_task rfl htold
    obtain ⟨fault, hphase⟩ := Shared.ended_of_hasEnded hv he
    refine hr.shared.add_event hp rfl hv ?_
    refine (hr.shared.task j v hv).join hv hphase ((mem_log_of_task? rfl).2 htold) ?_ _ _
    intro o c r hmem
    exact hnew o c r ((mem_log_of_task? rfl).1 hmem)

/-- What an owner is in the middle of after its step agrees with what has happened. -/
theorem Recorded.owner_of_marks (hr : s.Recorded es) (hs : s.Orderly)
    (hw : s.owners[i]? = some w) (h : Owner.Steps w s.shared w' p)
    (hm : Owner.Marks i w s.shared w' p fs) : w'.Recorded i p (es ++ fs) := by
  have hrec := hr.owner i w hw
  have hstage := hrec.stage
  have horderly := (hs.owner i w hw).stage
  have hguard : ∀ (k : Nat) (g : Guard) (j : Nat), w'.guards[k]? = some g → g.task = some j →
      ∃ a, .constructed i j (.ok (.ok (.of a j))) ∈ es ++ fs := by
    intro k g j hg hj
    obtain ⟨a, ha⟩ := h.recorded_guard hrec k g j hg hj
    exact ⟨a, List.mem_append_left fs ha⟩
  have hfree : w'.stage.IsFree → w'.Recorded i p (es ++ fs) := by
    intro hs'
    refine ⟨hguard, ?_, hs'.recorded⟩
    intro j hj
    rw [hs'.waitsFor?] at hj
    cases hj
  cases hm with
  | nothing hs' hp => exact hfree hs'
  | again hs₁ hg ha hs' hp => exact hfree hs'
  | failed hs₁ he hs' hp => exact hfree hs'
  | released hs₁ he hs' hp => exact hfree hs'
  | @launched a u cleanup hs' hp hu ht hunwound =>
    have hnone : log es s.shared.tasks.length = [] :=
      hr.shared.absent _ (List.getElem?_eq_none (by simp))
    refine ⟨hguard, ?_, ?_⟩
    · intro j hj
      rw [hs'] at hj
      cases hj
      exact List.mem_append_right es (List.mem_singleton_self _)
    · rw [hs']
      intro o made hmem
      rcases List.mem_append.1 hmem with hmem | hmem
      · have hlog := (mem_log_of_task? rfl).2 hmem
        rw [hnone] at hlog
        cases hlog
      · cases List.mem_singleton.1 hmem
  | @constructed j a cleanup v hs₁ hv hf hs' hp =>
    refine ⟨hguard, ?_, ?_⟩
    · intro l hl
      rw [hs'] at hl
      cases hl
    · rw [hs']
      intro l hl
      cases hl
      exact ⟨a, List.mem_append_right es (List.mem_singleton_self _)⟩
  | @missed j a cleanup hs₁ hu hs' hp =>
    rw [hs₁] at hstage horderly
    rw [List.append_nil] at hguard ⊢
    refine ⟨hguard, ?_, ?_⟩
    · intro l hl
      rw [hs'] at hl
      exact hrec.waits l (by rw [hs₁]; exact hl)
    · rw [hs']
      obtain ⟨v, hv, -⟩ := horderly
      obtain ⟨fault, hphase⟩ := Task.Coherent.ended (hs.coherent j v hv) (hu v hv)
      exact ⟨h.grows.ended ⟨v, fault, hv, hphase⟩, hstage⟩
  | @keptBack cleanup g e hs₁ hs' hp =>
    rw [hs₁] at hstage
    rw [List.append_nil] at hguard ⊢
    refine ⟨hguard, ?_, ?_⟩
    · intro l hl
      rw [hs'] at hl
      cases hl
    · rw [hs']
      exact hstage
  | @told a j cause g hg ht hs' hp =>
    obtain ⟨v, -, -, hlaunched, hnew⟩ := hr.tell hs hw hg ht
    refine ⟨hguard, ?_, ?_⟩
    · intro l hl
      rw [hs'] at hl
      cases hl
      exact List.mem_append_left _ hlaunched
    · rw [hs']
      refine ⟨List.mem_append_right es (List.mem_singleton_self _), ?_⟩
      intro o c r hmem
      rcases List.mem_append.1 hmem with hmem | hmem
      · exact hnew o c r hmem
      · cases List.mem_singleton.1 hmem
  | unwound hs₁ hs' hp =>
    rw [hs₁] at hstage
    rw [List.append_nil] at hguard ⊢
    refine ⟨hguard, ?_, ?_⟩
    · intro l hl
      rw [hs'] at hl
      exact hrec.waits l (by rw [hs₁]; exact hl)
    · rw [hs']
      exact hstage

/-- An owner's record is about tasks that it has started itself, so others leave it alone. -/
theorem Recorded.other_of_marks (hr : s.Recorded es) (hw : s.owners[i]? = some w)
    (hm : Owner.Marks i w s.shared w' p fs) (hgrow : Shared.Grows s.shared p) {i' : Nat}
    {x : Owner σ ρ} (hx : s.owners[i']? = some x) (hne : i' ≠ i) : x.Recorded i' p (es ++ fs) := by
  have hother : ∀ {j}, x.stage.waitsFor? = some j → w.stage.waitsFor? ≠ some j := by
    intro j hj hj'
    exact hne (hr.shared.launched_unique ((hr.owner i' x hx).waits j hj)
      ((hr.owner i w hw).waits j hj'))
  refine (hr.owner i' x hx).mono hgrow ?_ ?_
  · intro j hj o made hmem
    cases hm with
    | constructed hs₁ hv hf hs' hp =>
      cases List.mem_singleton.1 hmem
      exact hother hj (by rw [hs₁]; rfl)
    | failed hs₁ he hs' hp =>
      cases List.mem_singleton.1 hmem
      exact hother hj (by rw [hs₁]; rfl)
    | _ => simp at hmem
  · intro j hj o u r hmem
    cases hm with
    | released hs₁ he hs' hp =>
      cases List.mem_singleton.1 hmem
      exact hother hj (by rw [hs₁]; rfl)
    | _ => simp at hmem

theorem Recorded.of_owner (hr : s.Recorded es) (hs : s.Orderly) (hw : s.owners[i]? = some w)
    (h : Owner.Steps w s.shared w' t.shared) (ht : t.owners = s.owners.set i w') :
    t.Recorded (es ++ w.events i w') := by
  have hm := h.marks (hs.owner i w hw) i
  refine ⟨hr.shared_of_marks hs hw hm, ?_, ?_⟩
  · intro i' x hx
    rw [ht] at hx
    rcases getElem?_set_eq_some hw hx with ⟨rfl, rfl⟩ | ⟨hne, hx⟩
    · exact hr.owner_of_marks hs hw h hm
    · exact hr.other_of_marks hw hm h.grows hx hne
  · intro o hmem
    exact (List.mem_append.1 hmem).elim (hr.stranded o) (hm.not_stranded o)

theorem Recorded.of_task {j : Nat} {v v' : Task σ} (hr : s.Recorded es)
    (hv : s.shared.tasks[j]? = some v) (h : Task.Steps v s.shared v' p)
    (ht : t.shared = p.modifyTask j fun _ => v') (howners : t.owners = s.owners) :
    t.Recorded (es ++ v.events j v' s.shared.managed) := by
  have hgrow : Shared.Grows s.shared t.shared := ht ▸ Grows.of_task hv h
  refine ⟨?_, ?_, ?_⟩
  · rw [ht]
    refine hr.shared.add ?_ (fun l hl => h.getElem?_other hl) (h.getElem?_self hv)
      (h.follows (hr.shared.task j v hv))
    intro e he
    rcases Task.mem_events he with ⟨r, rfl⟩ | ⟨r, rfl⟩ | rfl <;> rfl
  · intro i x hx
    rw [howners] at hx
    refine (hr.owner i x hx).mono hgrow ?_ ?_
    · intro l _ o made hmem
      rcases Task.mem_events hmem with ⟨r, he⟩ | ⟨r, he⟩ | he <;> cases he
    · intro l _ o u r hmem
      rcases Task.mem_events hmem with ⟨r, he⟩ | ⟨r, he⟩ | he <;> cases he
  · intro o hmem
    rcases List.mem_append.1 hmem with hmem | hmem
    · exact hr.stranded o hmem
    · rcases Task.mem_events hmem with ⟨r, he⟩ | ⟨r, he⟩ | he <;> cases he

theorem Moves.recorded {a : Actor} (h : Moves s a t) (hs : s.Orderly) (hr : s.Recorded es) :
    t.Recorded (es ++ s.events a t) := by
  cases a with
  | owner i =>
    obtain ⟨w, w', hw, hstep, howners, hevents⟩ := h.owner_events
    exact hevents ▸ hr.of_owner hs hw hstep howners
  | task j =>
    obtain ⟨v, v', p, hv, hstep, hshared, howners, hevents⟩ := h.task_events
    exact hevents ▸ hr.of_task hv hstep hshared howners

theorem Fresh.recorded (hs : s.Fresh) : s.Recorded (ρ := ρ) [] where
  shared := by
    refine ⟨?_, fun _ _ => rfl⟩
    intro j v hv
    rw [hs.tasks] at hv
    cases hv
  owner := by
    intro i w hw
    obtain ⟨hg, hstage⟩ := hs.owner i w hw
    refine ⟨?_, ?_, ?_⟩
    · intro k g j hk
      rw [hg] at hk
      cases hk
    · intro j hj
      rw [hstage] at hj
      cases hj
    · rw [hstage]
      trivial
  stranded _ := List.not_mem_nil

theorem Traces.recorded {s₀ : Threads σ ρ} (h : Traces s₀ es t) (h₀ : s₀.Fresh) :
    t.Recorded es := by
  induction h with
  | refl => exact h₀.recorded
  | step a h ha ih => exact (moves_of_step? ha).recorded (h.reaches.orderly h₀.orderly) ih

end Threads

end PinnedHeap
