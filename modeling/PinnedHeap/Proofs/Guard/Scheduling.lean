import PinnedHeap.Proofs.Guard.Agreement
import PinnedHeap.Proofs.Guard.Custody

/-!
# Scheduling does not show

One owner and its tasks, with nothing to say which of them takes the next step.
There is hardly ever a choice: as long as a task can take a step, its owner
waits for that task. The one exception is a task that has confirmed the release
and has yet to let go of its manager; its owner may learn of the release before
that or after it, and the two steps have nothing to do with each other
(`Threads.Solo.diamond`). So all orders lead to the same end, which is the end
of the sequential reading (`Threads.Reaches.scheduling_does_not_show`).
-/

namespace PinnedHeap

variable {σ ρ : Type}

/-! ## Tasks that can take a step -/

namespace Task

variable {v : Task σ} {j : Nat} {l : List (Event ρ)}

/-- A task is at work while somebody waits for it. -/
theorem Follows.pending (h : v.Follows j l) (hr : v.isReady = true) : Event.IsPending j l := by
  obtain ⟨i, a, r, cause, h⟩ := h
  -- the owner waits from the launch until it knows of the pin, and from when it has told the task
  have hpinning : ∀ n, n = 1 ∨ n = 2 →
      Event.IsPending (ρ := ρ) j ((Event.pin i j a r cause).take n) := by
    rintro n (rfl | rfl)
    · exact .inl ⟨i, by simp [Event.pin]⟩
    · exact .inl ⟨i, by simp [Event.pin]⟩
  have hleaving : ∀ r n, n = 4 ∨ n = 5 →
      Event.IsPending (ρ := ρ) j ((Event.pin i j a r cause).take n) := by
    rintro r n (rfl | rfl)
    · exact .inr ⟨i, cause, by simp [Event.pin]⟩
    · exact .inr ⟨i, cause, by simp [Event.pin]⟩
  cases hp : v.phase with
  | retain =>
    rw [hp] at h
    exact h.2 ▸ hpinning 1 (.inl rfl)
  | countIn | reportRetained | confirmPin =>
    rw [hp] at h
    exact h.2 ▸ hpinning 2 (.inr rfl)
  | await =>
    rw [hp] at h
    rcases h with ⟨hg, -⟩ | ⟨-, hl⟩
    · simp [isReady, hp, hg.1] at hr
    · exact hl ▸ hleaving r 4 (.inl rfl)
  | reportVanished =>
    rw [hp] at h
    exact h.elim
  | unretain =>
    rw [hp] at h
    exact h.2 ▸ hleaving r 4 (.inl rfl)
  | countOut | reportUnretained | confirmRelease | close =>
    rw [hp] at h
    exact h.2 ▸ hleaving (.ok ()) 5 (.inr rfl)
  | ended fault => simp [isReady, hp] at hr

/-- When a task has confirmed the release, it has to let go of its manager, and nothing else. -/
theorem Follows.closing (h : v.Follows j l) (hr : v.isReady = true)
    (hu : v.unwound.signal ≠ .armed) : v.phase = .close := by
  obtain ⟨i, a, r, cause, h⟩ := h
  cases hp : v.phase with
  | close => rfl
  | await =>
    rw [hp] at h
    rcases h with ⟨hg, -⟩ | ⟨hg, -⟩
    · exact absurd hg.2 hu
    · exact absurd hg.2 hu
  | reportVanished =>
    rw [hp] at h
    exact h.elim
  | ended fault => simp [isReady, hp] at hr
  | _ =>
    rw [hp] at h
    exact absurd h.1.2 hu

end Task

namespace Threads

variable {s t u : Threads σ ρ} {w : Owner σ ρ} {a b : Actor} {j : Nat} {v : Task σ}

/-! ## One owner -/

/-- One owner, which began afresh. -/
def Solo (s : Threads σ ρ) : Prop :=
  ∃ (s₀ : Threads σ ρ) (es : List (Event ρ)) (w : Owner σ ρ),
    s₀.Fresh ∧ Traces s₀ es s ∧ s.owners = [w]

theorem Solo.step (hs : s.Solo) (h : s.step? a = some t) : t.Solo := by
  obtain ⟨s₀, es, w, h₀, htrace, howners⟩ := hs
  have htrace := htrace.step a h
  cases moves_of_step? h with
  | @owner i w₁ w' p ns hw hstep =>
    rw [howners] at hw
    obtain rfl : i = 0 := Nat.lt_one_iff.1 (List.getElem?_eq_some_iff.1 hw).1
    exact ⟨s₀, _, w', h₀, htrace, by simp [howners]⟩
  | task hv hstep => exact ⟨s₀, _, w, h₀, htrace, howners⟩

/-- If an owner takes a step, it is the only one. -/
theorem Solo.owner_of_step? (hs : s.Solo) {i : Nat} (h : s.step? (.owner i) = some t) :
    i = 0 ∧ ∃ w, s.owners = [w] ∧ w.isReady s.shared = true := by
  obtain ⟨-, -, w, -, -, howners⟩ := hs
  obtain ⟨w', hw, hr⟩ := ready_of_step?_owner h
  rw [howners] at hw
  obtain rfl : i = 0 := Nat.lt_one_iff.1 (List.getElem?_eq_some_iff.1 hw).1
  cases hw
  exact ⟨rfl, w, howners, hr⟩

theorem Solo.orderly (hs : s.Solo) : s.Orderly := by
  obtain ⟨s₀, es, w, h₀, htrace, -⟩ := hs
  exact htrace.reaches.orderly h₀.orderly

theorem Solo.follows (hs : s.Solo) (hv : s.shared.tasks[j]? = some v) :
    ∃ l : List (Event ρ), v.Follows j l := by
  obtain ⟨s₀, es, w, h₀, htrace, -⟩ := hs
  exact ⟨_, (htrace.recorded h₀).shared.task j v hv⟩

/-- As long as a task can take a step, the owner waits for it. -/
theorem Solo.waits (hs : s.Solo) (hw : s.owners = [w]) (hv : s.shared.tasks[j]? = some v)
    (hr : v.isReady = true) : w.stage.waitsFor? = some j := by
  obtain ⟨s₀, es, w', h₀, htrace, -⟩ := hs
  have hpending := ((htrace.recorded h₀).shared.task j v hv).pending hr
  have hmem := (htrace.attended h₀).mem_waitedFor hpending
  rw [waitedFor, hw] at hmem
  simpa using hmem

/-- If the owner can take a step as well, it is the one in which it learns of the release. -/
theorem Solo.stage_eq (hs : s.Solo) (hw : s.owners = [w]) (hr : w.isReady s.shared = true)
    (hv : s.shared.tasks[j]? = some v) (hrv : v.isReady = true) :
    v.phase = .close ∧ ∃ a cause, w.stage = .awaitingRelease j a cause := by
  have hj := hs.waits hw hv hrv
  have hget : s.owners[0]? = some w := by rw [hw]; rfl
  have hnotEnded : s.shared.hasEnded j ≠ true := by
    intro he
    obtain ⟨fault, hp⟩ := Shared.ended_of_hasEnded hv he
    simp [Task.isReady, hp] at hrv
  cases hstage : w.stage with
  | awaitingPin i a cleanup =>
    rw [hstage] at hj
    cases hj
    -- the task has confirmed the pin, so it waits to be told to stop
    exfalso
    have hclosed : v.established.signal ≠ .armed := by
      simpa [Owner.isReady, hstage, Shared.isPinOpen, hv] using hr
    have hclaim : j ∈ s.claims := mem_claims_of_stage hget (by rw [hstage]; rfl)
    cases he : v.established.signal with
    | armed => exact hclosed he
    | fired =>
      obtain ⟨hp, harmed⟩ := hs.orderly.await_of_claim hclaim hv he
      simp [Task.isReady, hp, harmed] at hrv
    | abandoned =>
      obtain ⟨fault, hp⟩ := (hs.orderly.coherent j v hv).ended he
      simp [Task.isReady, hp] at hrv
  | joiningFailed i a cleanup =>
    rw [hstage] at hj
    cases hj
    exact absurd (by simpa [Owner.isReady, hstage] using hr) hnotEnded
  | joining i a cause =>
    rw [hstage] at hj
    cases hj
    exact absurd (by simpa [Owner.isReady, hstage] using hr) hnotEnded
  | awaitingRelease i a cause =>
    rw [hstage] at hj
    cases hj
    have hopen : v.unwound.signal ≠ .armed := by
      simpa [Owner.isReady, hstage, Shared.isReleaseOpen, hv] using hr
    obtain ⟨l, hl⟩ := hs.follows hv
    exact ⟨hl.closing hrv hopen, a, cause, rfl⟩
  | _ =>
    rw [hstage] at hj
    cases hj

/-- The owner may learn of a release before its task lets go of the manager, or after it. -/
theorem Solo.passRelease_close (hs : s.Solo) (ht : s.step? (.owner 0) = some t)
    (hu : s.step? (.task j) = some u) :
    ∃ x, t.step? (.task j) = some x ∧ u.step? (.owner 0) = some x := by
  obtain ⟨-, w, howners, hr⟩ := hs.owner_of_step? ht
  obtain ⟨v, hv, hrv⟩ := ready_of_step?_task hu
  have hw : s.owners[0]? = some w := by rw [howners]; rfl
  obtain ⟨hp, a, cause, hstage⟩ := hs.stage_eq howners hr hv hrv
  have hpass : ∀ p, w.step.run p = ⟨.ok (w.goTo (.joining j a cause)), p, []⟩ := by
    intro p
    simp only [Owner.step, hstage, Action.run_pure]
  obtain ⟨v', p, ns, hrun, hstep⟩ := Task.steps_of_ready (p := s.shared) hrv
  cases (step?_owner hw hr (hpass _)).symm.trans ht
  cases (step?_task hv hrv hrun).symm.trans hu
  refine ⟨_, step?_task hv hrv hrun, ?_⟩
  -- the release is as settled as before when the task has ended
  have htold : v.Told := by
    have hcoherent := hs.orderly.coherent j v hv
    rw [Task.Coherent, hp] at hcoherent
    refine ⟨hcoherent.2, fun _ => ?_⟩
    simpa [Owner.isReady, hstage, Shared.isReleaseOpen, hv] using hr
  have hclosed : v'.unwound.signal ≠ .armed := by
    refine (hstep.told htold).2 ?_
    have hlt := hstep.stepsLeft_lt
    rw [hp] at hlt
    exact Nat.le_of_lt hlt
  have hready : w.isReady (p.modifyTask j fun _ => v') = true := by
    simp [Owner.isReady, hstage, Shared.isReleaseOpen, hstep.getElem?_self hv, hclosed]
  have hlast := step?_owner (s := { s with
    shared := p.modifyTask j fun _ => v', journal := s.journal ++ ns }) hw hready (hpass _)
  rw [hlast, List.append_nil, List.append_nil]

/-- Where two can take a step, it does not matter who takes the first one. -/
theorem Solo.diamond (hs : s.Solo) (ha : s.step? a = some t) (hb : s.step? b = some u) :
    t = u ∨ ∃ x, t.step? b = some x ∧ u.step? a = some x := by
  obtain ⟨-, -, w, -, -, howners⟩ := id hs
  cases a with
  | owner i =>
    obtain ⟨rfl, -⟩ := hs.owner_of_step? ha
    cases b with
    | owner k =>
      obtain ⟨rfl, -⟩ := hs.owner_of_step? hb
      exact .inl (Option.some.inj (ha.symm.trans hb))
    | task j => exact .inr (hs.passRelease_close ha hb)
  | task j =>
    cases b with
    | owner k =>
      obtain ⟨rfl, -⟩ := hs.owner_of_step? hb
      exact .inr ((hs.passRelease_close hb ha).imp fun _ => And.symm)
    | task l =>
      -- the owner waits for one task only
      obtain ⟨v, hv, hr⟩ := ready_of_step?_task ha
      obtain ⟨v', hv', hr'⟩ := ready_of_step?_task hb
      cases (hs.waits howners hv hr).symm.trans (hs.waits howners hv' hr')
      exact .inl (Option.some.inj (ha.symm.trans hb))

/-! ## All orders lead to the same end -/

/-- Nobody can take a step. -/
def Ended (s : Threads σ ρ) : Prop := ∀ a, s.step? a = none

theorem Solo.ended (hs : s.Solo) (hf : s.IsFinished) : s.Ended := by
  obtain ⟨-, -, w, -, -, howners⟩ := id hs
  obtain ⟨hp, hstage⟩ := hf w (by rw [howners]; exact List.mem_singleton_self w)
  have hidle : w.stage = .idle := by
    cases hw : w.stage with
    | idle => rfl
    | _ =>
      rw [hw] at hstage
      exact hstage.elim
  intro a
  apply Option.eq_none_iff_forall_ne_some.2
  intro t ht
  cases a with
  | owner i =>
    obtain ⟨-, w', howners', hr⟩ := hs.owner_of_step? ht
    cases howners.symm.trans howners'
    simp [Owner.isReady, hidle, hp] at hr
  | task j =>
    obtain ⟨v, hv, hr⟩ := ready_of_step?_task ht
    have hwaits := hs.waits howners hv hr
    rw [hidle] at hwaits
    cases hwaits

theorem Ended.eq (hs : s.Ended) (h : s.Reaches t) : t = s := by
  cases h with
  | refl => rfl
  | step a ha rest =>
    rw [hs a] at ha
    cases ha

/-- Whatever the first step is, it does not lead away from the end. -/
theorem Solo.strip (hs : s.Solo) (hu : s.Reaches u) (hend : u.Ended) (ht : s.step? a = some t) :
    t.Reaches u := by
  induction hu generalizing a t with
  | refl s =>
    rw [hend a] at ht
    cases ht
  | @step s x u b hb rest ih =>
    rcases hs.diamond ht hb with rfl | ⟨y, hy, hy'⟩
    · exact rest
    · exact .step b hy (ih (hs.step hb) hend hy')

/-- Nor does any other one. -/
theorem Solo.confluent (hs : s.Solo) (ht : s.Reaches t) (hu : s.Reaches u) (hend : u.Ended) :
    t.Reaches u := by
  induction ht with
  | refl s => exact hu
  | step a ha rest ih => exact ih (hs.step ha) (hs.strip hu hend ha)

theorem Solo.reaches (hs : s.Solo) (h : s.Reaches t) : t.Solo := by
  induction h with
  | refl s => exact hs
  | step a ha rest ih => exact ih (hs.step ha)

/-! ## The sequential reading -/

/-- One owner that has yet to begin with its commands. -/
def solo (p : Shared σ) (thread : String) (cs : List (Command σ ρ)) : Threads σ ρ where
  shared := p
  owners := [{ thread, program := cs }]

theorem solo_fresh {p : Shared σ} (hp : p.tasks = []) (thread : String)
    (cs : List (Command σ ρ)) : (solo p thread cs).Fresh where
  tasks := hp
  owner i w hw := by
    obtain rfl := List.mem_singleton.1 (List.mem_of_getElem? hw)
    exact ⟨rfl, rfl⟩

/-- One of the orders carries the commands out as blocks. -/
theorem solo_reaches_runAll {p : Shared σ} (hp : p.tasks = []) (thread : String)
    (cs : List (Command σ ρ)) :
    ∃ rs guards q ns, (Command.runAll thread cs).run ([], p) = ⟨.ok rs, (guards, q), ns⟩ ∧
      (solo p thread cs).Reaches
        { shared := q, owners := [{ thread, program := [], guards, results := rs }],
          journal := ns } :=
  (solo_fresh hp thread cs).orderly.reaches_runAll (i := 0) rfl rfl rfl

/-- All that can be seen of `t` is as the sequential reading has it, with the results `rs` and
the notices `ns`. -/
structure Shows (rs : List (Result ρ)) (s : Sequential σ) (ns : List Entry) (t : Threads σ ρ) :
    Prop where
  results : t.owners.map Owner.results = [rs]
  managed : t.shared.managed = s.managed
  cells : t.shared.cells = s.cells
  holding : t.shared.holding = s.holding
  journal : t.journal = ns
  guards : ∀ w ∈ t.owners, w.guards.map (fun g => (g.address, g.slot, g.bound)) =
    s.pins.map fun x => (x.address, x.slot, x.bound)

/-- In whatever order one owner and its tasks take their steps, and whatever the managers answer:
they can go on to the end of the owner's commands, and there the results, what is managed, the
cells, the count of live tasks and all notices, in their order, are those of the sequential
reading. -/
theorem Reaches.scheduling_does_not_show {p : Shared σ} (hp : p.tasks = []) {thread : String}
    {cs : List (Command σ ρ)} (h : (solo p thread cs).Reaches t) :
    ∃ rs s ns, (Sequential.runAll thread cs).run (.of p []) = ⟨.ok rs, s, ns⟩ ∧
      (∃ u, t.Reaches u ∧ u.IsFinished ∧ Shows rs s ns u) ∧ (t.IsFinished → Shows rs s ns t) := by
  have hfresh := solo_fresh hp thread cs
  have hsolo : (solo p thread cs).Solo := ⟨_, [], _, hfresh, .refl, rfl⟩
  obtain ⟨rs, guards, q, ns, hrun, hreach⟩ := solo_reaches_runAll hp thread cs
  have hnil : Sequential.Mirrors [] [] p.tasks := by
    rw [hp]
    exact .nil
  have halike := Sequential.alike_runAll thread cs hnil
  rw [hrun] at halike
  generalize (Sequential.runAll thread cs).run (.of p []) = o at halike ⊢
  cases halike with
  | @intro _ pins _ _ _ hmirrors =>
    have hfinished : IsFinished (ρ := ρ)
        { shared := q, owners := [{ thread, program := [], guards, results := rs }]
          journal := ns } := by
      intro w hw
      obtain rfl := List.mem_singleton.1 hw
      exact ⟨rfl, trivial⟩
    have hshows : Shows rs (.of q pins) ns
        { shared := q, owners := [{ thread, program := [], guards, results := rs }]
          journal := ns } := by
      refine ⟨rfl, rfl, rfl, rfl, rfl, ?_⟩
      intro w hw
      obtain rfl := List.mem_singleton.1 hw
      exact hmirrors.map_eq
    have hu := hsolo.confluent h hreach ((hsolo.reaches hreach).ended hfinished)
    refine ⟨rs, .of q pins, ns, rfl, ⟨_, hu, hfinished, hshows⟩, ?_⟩
    intro hf
    rw [← ((hsolo.reaches h).ended hf).eq hu]
    exact hshows

/-- An owner of two guards, whose managers hold their addresses; one of them does not take its
address back. -/
def twoGuards : List (Command Unit Unit) :=
  [.pin {} .unmanaged (pure 16) (pure ()),
    .pin {} { Manager.unmanaged with unretain := fun _ _ => Action.fail (.refused "mine") }
      (pure 32) (pure ()),
    .store 0 ⟨96, by decide, by decide⟩, .release 0 false, .release 1 false]

/-- What is reported meanwhile. -/
def twoGuardsNotices : List Entry :=
  [⟨"ptrguard-pin", .taskRetained "unmanaged" 16⟩, ⟨"main", .pinned 16⟩,
    ⟨"ptrguard-pin", .taskRetained "unmanaged" 32⟩, ⟨"main", .pinned 32⟩,
    ⟨"main", .published 16 96⟩, ⟨"ptrguard-pin", .taskUnretained "unmanaged" 16⟩,
    ⟨"main", .released 16⟩]

/-- The owner learns of the first release before the task has ended. -/
theorem two_guards_show_no_scheduling :
    ∃ t rs s, (solo (Shared.start ()) "main" twoGuards).Reaches t ∧ t.IsFinished ∧
      (Sequential.runAll "main" twoGuards).run (.of (Shared.start ()) []) =
        ⟨.ok rs, s, twoGuardsNotices⟩ ∧
      Shows rs s twoGuardsNotices t := by
  let making (j : Nat) : List Actor := [.owner 0, .owner 0, .task j, .task j, .task j, .task j,
    .owner 0, .owner 0]
  let order : List Actor := making 0 ++ making 1 ++
    [.owner 0, .owner 0, .owner 0, .owner 0, .task 0, .task 0, .task 0, .task 0, .task 0,
      .owner 0, .task 0, .owner 0,
      .owner 0, .owner 0, .owner 0, .task 1, .task 1, .owner 0, .owner 0]
  have hsteps : ((solo (Shared.start ()) "main" twoGuards).steps? order).map (fun t =>
      (t.owners.all fun w => w.program.isEmpty && w.stage.isIdle, t.journal)) =
        some (true, twoGuardsNotices) := by decide +kernel
  obtain ⟨t, ht, heq⟩ := Option.map_eq_some_iff.1 hsteps
  obtain ⟨hidle, hjournal⟩ := Prod.mk.inj heq
  have h : (solo (Shared.start ()) "main" twoGuards).Reaches t := .of_steps? ht
  have hf : t.IsFinished := by
    intro w hw
    have hall := List.all_eq_true.1 hidle w hw
    obtain ⟨hp, hstage⟩ := Bool.and_eq_true_iff.1 hall
    refine ⟨List.isEmpty_iff.1 hp, ?_⟩
    cases hs : w.stage with
    | idle => trivial
    | _ => simp [hs, Stage.isIdle] at hstage
  obtain ⟨rs, s, ns, hrun, -, hshows⟩ := Reaches.scheduling_does_not_show rfl h
  obtain rfl : ns = twoGuardsNotices := (hshows hf).journal.symm.trans hjournal
  exact ⟨t, rs, s, h, hf, hrun, hshows hf⟩

end Threads

end PinnedHeap
