import PinnedHeap.Proofs.Guard.Events

/-!
# The course of a pin

What happens to a pin takes one of two courses, whatever the manager answers.
`Task.Follows` says how far a task has come in its course in each of its phases.
Every step of the task leads on from there, and so does what its owner does about
it.
-/

namespace PinnedHeap

variable {σ ρ : Type}

/-! ## How far a task has come -/

namespace Task

/-- The gates at which the task and its owner wait for each other are in these states. -/
def Gates (t : Task σ) (terminate unwound : Signal) : Prop :=
  t.terminate.signal = terminate ∧ t.unwound.signal = unwound

/-- What has happened to the pin of the task is as its phase has it. -/
def Follows (j : Nat) (t : Task σ) (log : List (Event ρ)) : Prop :=
  ∃ (i a : Nat) (r : Except Fault Unit) (cause : Cause),
    match t.phase with
    | .retain => t.Gates .armed .armed ∧ log = (Event.pin i j a r cause).take 1
    | .countIn | .reportRetained | .confirmPin =>
      t.Gates .armed .armed ∧ log = (Event.pin i j a r cause).take 2
    | .await =>
      (t.Gates .armed .armed ∧ (log = (Event.pin i j a r cause).take 2 ∨
        log = (Event.pin i j a r cause).take 3)) ∨
      (t.Gates .fired .armed ∧ log = (Event.pin i j a r cause).take 4)
    | .reportVanished => False
    | .unretain => t.Gates .fired .armed ∧ log = (Event.pin i j a r cause).take 4
    | .countOut | .reportUnretained | .confirmRelease =>
      t.Gates .fired .armed ∧ log = (Event.pin i j a (.ok ()) cause).take 5
    | .close => t.Gates .fired .fired ∧ log = (Event.pin i j a (.ok ()) cause).take 5
    | .ended fault =>
      (t.terminate.signal = .armed ∧ ∃ e, fault = some e ∧
        (log = (Event.refusal i j e).take 3 ∨ log = Event.refusal i j e)) ∨
      ((match r with
          | .ok () => t.Gates .fired .fired
          | .error e => t.Gates .fired .abandoned ∧ fault = some e) ∧
        (log = (Event.pin i j a r cause).take 6 ∨ log = Event.pin i j a r cause))

variable {t t' : Task σ} {j : Nat} {log : List (Event ρ)}

/-- A task that can no longer confirm the pin has ended. -/
theorem Coherent.ended (ht : t.Coherent) (he : t.established.signal = .abandoned) :
    ∃ fault, t.phase = .ended fault := by
  unfold Coherent at ht
  split at ht
  all_goals simp_all

/-- How far a task has come, as the `terminate` gate has it. -/
inductive Stands (j : Nat) (t : Task σ) : List (Event ρ) → Prop where
  | launched {i a : Nat} {r : Except Fault Unit} {c : Cause} (hp : t.phase = .retain)
      (ht : t.terminate.signal = .armed) : Stands j t ((Event.pin i j a r c).take 1)
  | pinned {i a n : Nat} {r : Except Fault Unit} {c : Cause} (ht : t.terminate.signal = .armed)
      (hn : n = 2 ∨ n = 3) : Stands j t ((Event.pin i j a r c).take n)
  | refused {i n : Nat} {e : Fault} (ht : t.terminate.signal = .armed) (hn : n = 3 ∨ n = 4) :
      Stands j t ((Event.refusal i j e).take n)
  | told {i a n : Nat} {r : Except Fault Unit} {c : Cause} (ht : t.terminate.signal = .fired)
      (hn : n = 4 ∨ n = 5 ∨ n = 6 ∨ n = 7) : Stands j t ((Event.pin i j a r c).take n)

theorem Follows.stands (h : t.Follows j log) : t.Stands j log := by
  obtain ⟨i, a, r, c, h⟩ := h
  cases hp : t.phase with
  | retain =>
    rw [hp] at h
    exact h.2 ▸ .launched hp h.1.1
  | countIn =>
    rw [hp] at h
    exact h.2 ▸ .pinned h.1.1 (.inl rfl)
  | reportRetained =>
    rw [hp] at h
    exact h.2 ▸ .pinned h.1.1 (.inl rfl)
  | confirmPin =>
    rw [hp] at h
    exact h.2 ▸ .pinned h.1.1 (.inl rfl)
  | await =>
    rw [hp] at h
    rcases h with ⟨hg, rfl | rfl⟩ | ⟨hg, rfl⟩
    · exact .pinned hg.1 (.inl rfl)
    · exact .pinned hg.1 (.inr rfl)
    · exact .told hg.1 (.inl rfl)
  | reportVanished =>
    rw [hp] at h
    exact h.elim
  | unretain =>
    rw [hp] at h
    exact h.2 ▸ .told h.1.1 (.inl rfl)
  | countOut =>
    rw [hp] at h
    exact h.2 ▸ .told h.1.1 (.inr (.inl rfl))
  | reportUnretained =>
    rw [hp] at h
    exact h.2 ▸ .told h.1.1 (.inr (.inl rfl))
  | confirmRelease =>
    rw [hp] at h
    exact h.2 ▸ .told h.1.1 (.inr (.inl rfl))
  | close =>
    rw [hp] at h
    exact h.2 ▸ .told h.1.1 (.inr (.inl rfl))
  | ended fault =>
    rw [hp] at h
    rcases h with ⟨ht, e, -, rfl | rfl⟩ | ⟨hr, hlog⟩
    · exact .refused ht (.inl rfl)
    · exact .refused (n := 4) ht (.inr rfl)
    · have ht : t.terminate.signal = .fired := by
        cases r with
        | ok => exact hr.1
        | error e => exact hr.1.1
      rcases hlog with rfl | rfl
      · exact .told ht (.inr (.inr (.inl rfl)))
      · exact .told (n := 7) ht (.inr (.inr (.inr rfl)))

/-- What has happened to a pin is the beginning of a course. -/
theorem Follows.course (h : t.Follows j log) :
    ∃ course, Event.Course j course ∧ log <+: course := by
  cases h.stands with
  | launched hp ht => exact ⟨_, .pin _ _ _ _, List.take_prefix _ _⟩
  | pinned ht hn => exact ⟨_, .pin _ _ _ _, List.take_prefix _ _⟩
  | refused ht hn => exact ⟨_, .refusal _ _, List.take_prefix _ _⟩
  | told ht hn => exact ⟨_, .pin _ _ _ _, List.take_prefix _ _⟩

/-- A task begins by calling `retain`. -/
theorem Follows.retained (h : t.Follows j log) :
    t.phase = .retain ∨ ∃ r, .retained j r ∈ log := by
  cases h.stands with
  | launched hp ht => exact .inl hp
  | pinned ht hn =>
    refine .inr ⟨.ok (), ?_⟩
    rcases hn with rfl | rfl <;> simp [Event.pin]
  | @refused i n e ht hn =>
    refine .inr ⟨.error e, ?_⟩
    rcases hn with rfl | rfl <;> simp [Event.refusal]
  | told ht hn =>
    refine .inr ⟨.ok (), ?_⟩
    rcases hn with rfl | rfl | rfl | rfl <;> simp [Event.pin]

/-- The gate `terminate` is armed until an owner tells the task to stop, and fired from then
on. -/
theorem Follows.terminate (h : t.Follows j log) :
    t.terminate.signal ≠ .abandoned ∧
      (t.terminate.signal = .fired ↔ ∃ i cause, .told i cause j ∈ log) := by
  cases h.stands with
  | launched hp ht => simp [ht, Event.pin]
  | pinned ht hn => rcases hn with rfl | rfl <;> simp [ht, Event.pin]
  | refused ht hn => rcases hn with rfl | rfl <;> simp [ht, Event.refusal]
  | told ht hn => rcases hn with rfl | rfl | rfl | rfl <;> simp [ht, Event.pin]

theorem follows_of_launched {i : Nat} (hp : t.phase = .retain) (hg : t.Gates .armed .armed) :
    t.Follows (ρ := ρ) j [.launched i j] := by
  refine ⟨i, 0, .ok (), .asked 0 false, ?_⟩
  rw [hp]
  exact ⟨hg, rfl⟩

/-- A task goes on in its course. -/
theorem Steps.follows {p p' : Shared σ} (h : Steps t p t' p') (hf : t.Follows j log) :
    t'.Follows j (log ++ t.events j t' p.managed) := by
  obtain ⟨i, a, r, c, hf⟩ := hf
  have hquiet : log ++ ([] ++ []) = log := List.append_nil log
  cases h with
  | retain hp ha =>
    rw [hp] at hf
    obtain ⟨hg, rfl⟩ := hf
    simp only [events, hp, ha]
    exact ⟨i, a, r, c, hg, rfl⟩
  | @retainFails e hp he =>
    rw [hp] at hf
    obtain ⟨hg, rfl⟩ := hf
    simp only [events, hp, he, failed]
    exact ⟨i, a, r, c, .inl ⟨hg.1, e, rfl, .inl rfl⟩⟩
  | countIn hp =>
    rw [hp] at hf
    simp only [events, hp, hquiet]
    exact ⟨i, a, r, c, hf⟩
  | reportRetained hp =>
    rw [hp] at hf
    simp only [events, hp, hquiet]
    exact ⟨i, a, r, c, hf⟩
  | confirmPin hp =>
    rw [hp] at hf
    simp only [events, hp, hquiet]
    exact ⟨i, a, r, c, .inl ⟨hf.1, .inl hf.2⟩⟩
  | passTerminate hp hs =>
    rw [hp] at hf
    simp only [events, hp, hquiet]
    rcases hf with ⟨hg, -⟩ | hf
    · exact absurd (hg.1.symm.trans hs) (by simp)
    · exact ⟨i, a, r, c, hf⟩
  | loseTerminate hp hs =>
    rw [hp] at hf
    rcases hf with ⟨hg, -⟩ | ⟨hg, -⟩
    · exact absurd (hg.1.symm.trans hs) (by simp)
    · exact absurd (hg.1.symm.trans hs) (by simp)
  | reportVanished hp =>
    rw [hp] at hf
    exact hf.elim
  | unretain hp ha =>
    rw [hp] at hf
    obtain ⟨hg, rfl⟩ := hf
    simp only [events, hp, ha]
    exact ⟨i, a, r, c, hg, rfl⟩
  | @unretainFails e hp he =>
    rw [hp] at hf
    obtain ⟨hg, rfl⟩ := hf
    simp only [events, hp, he, failed]
    exact ⟨i, a, .error e, c, .inr ⟨⟨⟨hg.1, abandon_of_armed hg.2⟩, rfl⟩, .inl rfl⟩⟩
  | countOut hp =>
    rw [hp] at hf
    simp only [events, hp, hquiet]
    exact ⟨i, a, r, c, hf⟩
  | reportUnretained hp =>
    rw [hp] at hf
    simp only [events, hp, hquiet]
    exact ⟨i, a, r, c, hf⟩
  | confirmRelease hp =>
    rw [hp] at hf
    simp only [events, hp, hquiet]
    exact ⟨i, a, r, c, ⟨hf.1.1, fire_of_armed hf.1.2⟩, hf.2⟩
  | close hp ha =>
    rw [hp] at hf
    obtain ⟨hg, rfl⟩ := hf
    simp only [events, hp]
    exact ⟨i, a, .ok (), c, .inr ⟨hg, .inl rfl⟩⟩
  | closeFails hp he =>
    rw [hp] at hf
    obtain ⟨hg, rfl⟩ := hf
    simp only [events, hp, failed]
    exact ⟨i, a, .ok (), c, .inr ⟨⟨hg.1, abandon_of_fired hg.2⟩, .inl rfl⟩⟩

/-! ### What owners do about a task -/

/-- A task that waits, and was not told to stop, confirms the pin to an owner that does not
know of it. -/
theorem Follows.construct {i a : Nat} (h : t.Follows j log) (hp : t.phase = .await)
    (ht : t.terminate.signal = .armed) (hi : .launched i j ∈ log)
    (hnew : ∀ o made, .constructed o j made ∉ log) :
    t.Follows j (log ++ [.constructed i j (.ok (.ok (.of a j)))]) := by
  obtain ⟨o, b, r, c, h⟩ := h
  rw [hp] at h
  rcases h with ⟨hg, rfl | rfl⟩ | ⟨hg, -⟩
  · obtain rfl : i = o := by simpa [Event.pin] using hi
    refine ⟨i, a, r, c, ?_⟩
    rw [hp]
    exact .inl ⟨hg, .inr rfl⟩
  · exact absurd (by simp [Event.pin]) (hnew o (.ok (.ok (.of b j))))
  · exact absurd (ht.symm.trans hg.1) (by simp)

/-- A task that has ended before its owner knew of a pin was refused by its manager. -/
theorem Follows.fail {i : Nat} {fault : Option Fault} (h : t.Follows j log)
    (hp : t.phase = .ended fault) (hi : .launched i j ∈ log)
    (hnew : ∀ o made, .constructed o j made ∉ log) :
    ∃ e, fault = some e ∧ t.Follows j (log ++ [.constructed i j (.error e)]) := by
  obtain ⟨o, b, r, c, h⟩ := h
  rw [hp] at h
  rcases h with ⟨ht, e, rfl, rfl | rfl⟩ | ⟨-, rfl | rfl⟩
  · obtain rfl : i = o := by simpa [Event.refusal] using hi
    refine ⟨e, rfl, i, b, r, c, ?_⟩
    rw [hp]
    exact .inl ⟨ht, e, rfl, .inr rfl⟩
  · exact absurd (by simp [Event.refusal]) (hnew o (.error e))
  · exact absurd (by simp [Event.pin]) (hnew o (.ok (.ok (.of b j))))
  · exact absurd (by simp [Event.pin]) (hnew o (.ok (.ok (.of b j))))

/-- The owner of a guard tells the task that waits for that. -/
theorem Follows.tell {i a : Nat} (h : t.Follows j log) (hp : t.phase = .await)
    (ht : t.terminate.signal = .armed) (hmade : .constructed i j (.ok (.ok (.of a j))) ∈ log)
    (cause : Cause) :
    Task.Follows j { t with terminate := t.terminate.fire } (log ++ [.told i cause j]) ∧
      .launched i j ∈ log ∧ ∀ o c r, .released o j c r ∉ log := by
  obtain ⟨o, b, r, c, h⟩ := h
  rw [hp] at h
  rcases h with ⟨hg, rfl | rfl⟩ | ⟨hg, -⟩
  · simp [Event.pin] at hmade
  · obtain ⟨rfl, -⟩ : i = o ∧ _ := by simpa [Event.pin] using hmade
    refine ⟨⟨i, b, r, cause, ?_⟩, by simp [Event.pin], by simp [Event.pin]⟩
    rw [hp]
    exact .inr ⟨⟨fire_of_armed ht, hg.2⟩, rfl⟩
  · exact absurd (ht.symm.trans hg.1) (by simp)

/-- What the manager has answered reaches the owner, unless that is failing already. -/
theorem answer_conclude {p : Shared σ} {r : Except Fault Unit} {fault : Option Fault}
    (ht : p.tasks[j]? = some t) (hp : t.phase = .ended fault)
    (hr : match r with
      | .ok () => t.Gates .fired .fired
      | .error e => t.Gates .fired .abandoned ∧ fault = some e)
    (owner : String) (unwinding : Bool) (a : Nat) :
    ((Shared.conclude owner unwinding a j).run p).answer = if unwinding then .ok () else r := by
  have hfault : p.faultOf j = fault := by simp [Shared.faultOf, ht, fault?, hp]
  simp only [Shared.conclude, Action.run_bind, Action.run_read, hfault]
  cases r with
  | ok =>
    have hunwound : p.isUnwound j = true := by simp [Shared.isUnwound, ht, hr.2]
    rw [hunwound]
    cases fault <;> cases unwinding <;> rfl
  | error e =>
    obtain ⟨hg, rfl⟩ := hr
    have hunwound : p.isUnwound j = false := by simp [Shared.isUnwound, ht, hg.2]
    rw [hunwound]
    cases unwinding <;> rfl

/-- A release that joins its task ends as the manager has answered. -/
theorem Follows.join {p : Shared σ} {i : Nat} {cause : Cause} {fault : Option Fault}
    (h : t.Follows j log) (ht : p.tasks[j]? = some t) (hp : t.phase = .ended fault)
    (htold : .told i cause j ∈ log) (hnew : ∀ o c r, .released o j c r ∉ log) (owner : String)
    (a : Nat) :
    t.Follows j (log ++ [.released i j cause (cause.result
      ((Shared.conclude owner cause.unwinding a j).run p).answer)]) := by
  obtain ⟨o, b, r, c, h⟩ := h
  rw [hp] at h
  rcases h with ⟨-, e, -, rfl | rfl⟩ | ⟨hr, rfl | rfl⟩
  · simp [Event.refusal] at htold
  · simp [Event.refusal] at htold
  · obtain ⟨rfl, rfl⟩ : i = o ∧ cause = c := by simpa [Event.pin] using htold
    rw [answer_conclude ht hp hr]
    refine ⟨i, b, r, cause, ?_⟩
    rw [hp]
    exact .inr ⟨hr, .inr rfl⟩
  · exact absurd (by simp [Event.pin]) (hnew o c (Event.outcome c r))

/-- A task that was told to stop is on its way to the end. -/
theorem Follows.isReady_of_told {i : Nat} {cause : Cause} (h : t.Follows j log)
    (htold : .told i cause j ∈ log) (hp : ∀ fault, t.phase ≠ .ended fault) : t.isReady = true := by
  have hfired := h.terminate.2.2 ⟨i, cause, htold⟩
  cases hphase : t.phase with
  | ended fault => exact absurd hphase (hp fault)
  | _ => simp [isReady, hphase, hfired]

/-- At its end a task that was told to stop has fired the gate `unwound`, or abandoned it. -/
theorem Follows.not_open_of_ended {fault : Option Fault} (h : t.Follows j log)
    (hp : t.phase = .ended fault) (htold : ∃ i cause, .told i cause j ∈ log) :
    t.unwound.signal ≠ .armed := by
  have hfired := h.terminate.2.2 htold
  obtain ⟨i, a, r, c, h⟩ := h
  rw [hp] at h
  rcases h with ⟨ht, -⟩ | ⟨hr, -⟩
  · exact absurd (ht.symm.trans hfired) (by simp)
  · cases r with
    | ok => simp [hr.2]
    | error e => simp [hr.1.2]

/-- One owner has started the task. -/
theorem Follows.launched_unique {i i' : Nat} (h : t.Follows j log) (hi : .launched i j ∈ log)
    (hi' : .launched i' j ∈ log) : i = i' := by
  obtain ⟨course, hcourse, hprefix⟩ := h.course
  have hi := hprefix.subset hi
  have hi' := hprefix.subset hi'
  cases hcourse with
  | refusal o e =>
    simp only [Event.refusal, List.mem_cons, Event.launched.injEq, and_true, reduceCtorEq,
      List.not_mem_nil, or_false] at hi hi'
    rw [hi, hi']
  | pin o a r c =>
    simp only [Event.pin, List.mem_cons, Event.launched.injEq, and_true, reduceCtorEq,
      List.not_mem_nil, or_false] at hi hi'
    rw [hi, hi']

end Task

end PinnedHeap
