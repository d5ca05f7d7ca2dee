import Mathlib.Algebra.BigOperators.Intervals
import Mathlib.Algebra.Order.BigOperators.Group.Finset
import PinnedHeap.Proofs.Guard.Custody

/-!
# The count of live tasks

`Shared.holding` is meant to be the number of tasks that hold a retain. A task counts itself in
when its manager holds the address, and counts itself out when its manager has taken the address
back. Where the manager does not take it back the task ends in between, and nobody counts it out.

So the count comes to three things (`Threads.LiveTasks`): every guard that is held counts one,
every address that a manager has not taken back counts one for ever, and an owner in the middle
of a command may have one more task that counts.
-/

namespace PinnedHeap

open Event (log mem_log_of_task?)

variable {σ ρ : Type}

/-! ## What is counted -/

/-- The task has counted itself in, and not out. -/
def Task.isCounted (t : Task σ) : Bool :=
  match t.phase with
  | .reportRetained | .confirmPin | .await | .reportVanished | .unretain | .countOut => true
  | _ => false

/-- How many tasks have counted themselves in, and not out. -/
def Shared.counted (p : Shared σ) : Nat := p.tasks.countP Task.isCounted

namespace Event

/-- A manager has not taken an address back. -/
def isLoss : Event ρ → Bool
  | unretained _ (.error _) => true
  | _ => false

end Event

namespace Shared

variable {p : Shared σ} {j : Nat} {u : Task σ}

theorem counted_modifyTask (hu : p.tasks[j]? = some u) (f : Task σ → Task σ) :
    (p.modifyTask j f).counted + u.isCounted.toNat = p.counted + (f u).isCounted.toNat := by
  have hset : p.tasks.modify j f = p.tasks.set j (f u) := by
    rw [List.modify_eq_set_getElem?, hu]
    rfl
  rw [counted, modifyTask, hset]
  exact countP_set_add hu Task.isCounted (f u)

theorem counted_tellTask (p : Shared σ) (j : Nat) : (p.tellTask j).counted = p.counted := by
  cases hu : p.tasks[j]? with
  | none => rw [counted, tellTask, modifyTask, List.modify_eq_set_getElem?, hu]; rfl
  | some u => exact Nat.add_right_cancel (counted_modifyTask hu _)

theorem isCounted_le_counted (hu : p.tasks[j]? = some u) : u.isCounted.toNat ≤ p.counted := by
  cases hc : u.isCounted with
  | false => exact Nat.zero_le _
  | true => exact List.countP_pos_iff.2 ⟨u, List.mem_of_getElem? hu, hc⟩

end Shared

/-! ## Counting in and out -/

/-- Only a task that its manager does not let go leaves the count behind. -/
theorem Task.Steps.holding {u u' : Task σ} {p p' : Shared σ} (h : Task.Steps u p u' p') (j : Nat)
    (hle : u.isCounted.toNat ≤ p.holding) :
    p'.holding + u.isCounted.toNat = p.holding + u'.isCounted.toNat +
      (u.events (ρ := ρ) j u' p.managed).countP Event.isLoss := by
  cases h with
  | countOut hp =>
    have hcounted : u.isCounted = true := by rw [isCounted, hp]
    rw [hcounted] at hle ⊢
    simp only [Task.events, hp]
    exact Nat.sub_add_cancel hle
  | _ => simp [Task.events, isCounted, failed, Event.isLoss, List.countP_cons, *]

/-- Owners leave it to the tasks to count. -/
theorem Owner.Steps.counted {w w' : Owner σ ρ} {p p' : Shared σ} (h : Owner.Steps w p w' p') :
    p'.counted = p.counted ∧ p'.holding = p.holding := by
  cases h with
  | launch hs hr => simp [Shared.counted, Task.isCounted]
  | tell hs hg ht => exact ⟨Shared.counted_tellTask p _, rfl⟩
  | drop hs ha ht => exact ⟨Shared.counted_tellTask p _, rfl⟩
  | _ => exact ⟨rfl, rfl⟩

theorem Owner.Marks.not_loss {w w' : Owner σ ρ} {p p' : Shared σ} {i : Nat}
    {fs : List (Event ρ)} (h : Owner.Marks i w p w' p' fs) : fs.countP Event.isLoss = 0 := by
  cases h <;> rfl

namespace Threads

variable {s s₀ t : Threads σ ρ} {es fs : List (Event ρ)}

theorem Moves.holding {a : Actor} (h : Moves s a t) (hs : s.Orderly)
    (hle : s.shared.counted ≤ s.shared.holding) :
    t.shared.holding + s.shared.counted =
      s.shared.holding + t.shared.counted + (s.events a t).countP Event.isLoss := by
  cases a with
  | owner i =>
    obtain ⟨w, w', hw, hstep, -, hevents⟩ := h.owner_events
    have hmarks := hstep.marks (hs.owner i w hw) i
    rw [hevents, hmarks.not_loss, hstep.counted.1, hstep.counted.2, Nat.add_zero]
  | task j =>
    obtain ⟨u, u', p, hu, hstep, hshared, -, hevents⟩ := h.task_events
    have hcounted := Shared.counted_modifyTask (hstep.tasks ▸ hu) fun _ => u'
    have hsame : p.counted = s.shared.counted := by rw [Shared.counted, hstep.tasks, Shared.counted]
    have hholding := hstep.holding (ρ := ρ) j ((Shared.isCounted_le_counted hu).trans hle)
    rw [hevents, hshared]
    simp only [Shared.modifyTask] at hcounted ⊢
    omega

/-- The count is off by the addresses that managers have not taken back, and by nothing else. -/
theorem Traces.holding_eq (h₀ : s₀.Fresh) (h : Traces s₀ es t) :
    t.shared.holding = s₀.shared.holding + es.countP Event.isLoss + t.shared.counted := by
  induction h with
  | refl => simp [Shared.counted, h₀.tasks]
  | @step es t u a h ha ih =>
    -- the count is at least what is counted, so a task that counts itself out takes one away
    have hmoves := (moves_of_step? ha).holding (h.reaches.orderly h₀.orderly) (by omega)
    rw [List.countP_append]
    omega

end Threads

/-! ## Counting task by task -/

/-- A task counts as long as its pin is established and it has not been told to stop. It may count
also while somebody waits for it. -/
theorem Task.Follows.counts {v : Task σ} {j : Nat} {l : List (Event ρ)} (h : v.Follows j l) :
    v.isCounted.toNat + l.countP Event.isStop = l.countP Event.isPin ∨
      (v.isCounted.toNat + l.countP Event.isStop = l.countP Event.isPin + 1 ∧
        Event.IsPending j l) := by
  obtain ⟨i, a, r, c, h⟩ := h
  -- two events have happened before the owner knows of the pin, four when it has told the task
  have hpinning : ∀ r, Event.IsPending (ρ := ρ) j ((Event.pin i j a r c).take 2) :=
    fun r => .inl ⟨i, by simp [Event.pin]⟩
  have hleaving : ∀ r n, n = 4 ∨ n = 5 →
      Event.IsPending (ρ := ρ) j ((Event.pin i j a r c).take n) := by
    rintro r n (rfl | rfl)
    · exact .inr ⟨i, c, by simp [Event.pin]⟩
    · exact .inr ⟨i, c, by simp [Event.pin]⟩
  cases hp : v.phase with
  | retain =>
    rw [hp] at h
    rw [isCounted, hp, h.2]
    exact .inl rfl
  | countIn =>
    rw [hp] at h
    rw [isCounted, hp, h.2]
    exact .inl rfl
  | reportRetained =>
    rw [hp] at h
    rw [isCounted, hp, h.2]
    exact .inr ⟨rfl, hpinning r⟩
  | confirmPin =>
    rw [hp] at h
    rw [isCounted, hp, h.2]
    exact .inr ⟨rfl, hpinning r⟩
  | await =>
    rw [hp] at h
    rw [isCounted, hp]
    rcases h with ⟨-, rfl | rfl⟩ | ⟨-, rfl⟩
    · exact .inr ⟨rfl, hpinning r⟩
    · exact .inl rfl
    · exact .inr ⟨rfl, hleaving r 4 (.inl rfl)⟩
  | reportVanished =>
    rw [hp] at h
    exact h.elim
  | unretain =>
    rw [hp] at h
    rw [isCounted, hp, h.2]
    exact .inr ⟨rfl, hleaving r 4 (.inl rfl)⟩
  | countOut =>
    rw [hp] at h
    rw [isCounted, hp, h.2]
    exact .inr ⟨rfl, hleaving (.ok ()) 5 (.inr rfl)⟩
  | reportUnretained =>
    rw [hp] at h
    rw [isCounted, hp, h.2]
    exact .inl rfl
  | confirmRelease =>
    rw [hp] at h
    rw [isCounted, hp, h.2]
    exact .inl rfl
  | close =>
    rw [hp] at h
    rw [isCounted, hp, h.2]
    exact .inl rfl
  | ended fault =>
    rw [hp] at h
    rw [isCounted, hp]
    rcases h with ⟨-, e, -, rfl | rfl⟩ | ⟨-, rfl | rfl⟩ <;> exact .inl rfl

/-- Where all events of a kind are about the first `n` tasks, they are counted task by task. -/
theorem Event.countP_eq_sum_log (q : Event ρ → Bool) {es : List (Event ρ)} {n : Nat}
    (h : ∀ e ∈ es, q e = true → ∃ j < n, e.task? = some j) :
    es.countP q = ∑ j ∈ Finset.range n, (log es j).countP q := by
  induction es with
  | nil => simp [log]
  | cons e es ih =>
    have hlog : ∀ j, (log (e :: es) j).countP q =
        (log es j).countP q + if e.task? = some j ∧ q e = true then 1 else 0 := by
      intro j
      by_cases hj : e.task? = some j
      · simp [log, hj, List.countP_cons]
      · simp [log, hj]
    have hsum : (∑ j ∈ Finset.range n, if e.task? = some j ∧ q e = true then 1 else 0) =
        if q e = true then 1 else 0 := by
      cases hq : q e with
      | false => simp
      | true =>
        obtain ⟨j, hj, htask⟩ := h e List.mem_cons_self hq
        simp [htask, hj]
    rw [List.countP_cons, ih fun x hx => h x (List.mem_cons_of_mem e hx),
      Finset.sum_congr rfl fun j _ => hlog j, Finset.sum_add_distrib, hsum]

theorem countP_eq_sum_range {α : Type} (q : α → Bool) (l : List α) :
    l.countP q = ∑ j ∈ Finset.range l.length, (l[j]?.any q).toNat := by
  induction l with
  | nil => rfl
  | cons x l ih =>
    rw [List.length_cons, Finset.sum_range_succ', List.countP_cons, ih]
    cases hx : q x <;> simp [hx]

/-- At most so many numbers are on a list as it is long. -/
theorem sum_mem_le (n : Nat) (l : List Nat) :
    (∑ j ∈ Finset.range n, if j ∈ l then 1 else 0) ≤ l.length := by
  have hsub : (Finset.range n).filter (· ∈ l) ⊆ l.toFinset := by
    intro j hj
    exact List.mem_toFinset.2 (Finset.mem_filter.1 hj).2
  calc (∑ j ∈ Finset.range n, if j ∈ l then 1 else 0)
      = ((Finset.range n).filter (· ∈ l)).card := (Finset.card_filter _ _).symm
    _ ≤ l.toFinset.card := Finset.card_le_card hsub
    _ ≤ l.length := l.toFinset_card_le

namespace Threads

variable {s s₀ t : Threads σ ρ} {es fs : List (Event ρ)}

theorem Recorded.countP_eq_sum (hr : s.Recorded es) (q : Event ρ → Bool)
    (hq : ∀ e, q e = true → ∃ j, e.task? = some j) :
    es.countP q = ∑ j ∈ Finset.range s.shared.tasks.length, (log es j).countP q := by
  apply Event.countP_eq_sum_log
  intro e he hqe
  obtain ⟨j, hj⟩ := hq e hqe
  obtain ⟨v, hv⟩ := hr.shared.exists_task hj he
  exact ⟨j, (List.getElem?_eq_some_iff.1 hv).1, hj⟩

/-- The tasks that count are those that hold an established pin and were not told to stop, and
some that are waited for. -/
theorem Recorded.counted_bounds (hr : s.Recorded es) (ha : s.Attended es) :
    es.countP Event.isPin ≤ s.shared.counted + es.countP Event.isStop ∧
      s.shared.counted + es.countP Event.isStop ≤ es.countP Event.isPin + s.waitedFor.length := by
  have htask : ∀ j ∈ Finset.range s.shared.tasks.length,
      (log es j).countP Event.isPin ≤
        (s.shared.tasks[j]?.any Task.isCounted).toNat + (log es j).countP Event.isStop ∧
      (s.shared.tasks[j]?.any Task.isCounted).toNat + (log es j).countP Event.isStop ≤
        (log es j).countP Event.isPin + if j ∈ s.waitedFor then 1 else 0 := by
    intro j hj
    have hv := List.getElem?_eq_getElem (Finset.mem_range.1 hj)
    rw [hv, Option.any_some]
    rcases (hr.shared.task j _ hv).counts with heq | ⟨heq, hpending⟩
    · omega
    · rw [if_pos (ha.mem_waitedFor hpending)]
      omega
  rw [hr.countP_eq_sum _ fun _ => Event.exists_task?_of_isPin,
    hr.countP_eq_sum _ fun _ => Event.exists_task?_of_isStop, Shared.counted,
    countP_eq_sum_range, ← Finset.sum_add_distrib]
  refine ⟨Finset.sum_le_sum fun j hj => (htask j hj).1, ?_⟩
  refine (Finset.sum_le_sum fun j hj => (htask j hj).2).trans ?_
  rw [Finset.sum_add_distrib]
  exact Nat.add_le_add_left (sum_mem_le _ _) _

/-! ## The count -/

/-- What the count of live tasks comes to when `es` has happened since `s₀` and has led to `t`. -/
structure LiveTasks (s₀ : Threads σ ρ) (es : List (Event ρ)) (t : Threads σ ρ) : Prop where
  /-- Once all tasks have ended, the count is where it was before them, but for the addresses that
  managers have not taken back. -/
  ended : (∀ v ∈ t.shared.tasks, ∃ fault, v.phase = .ended fault) →
    t.shared.holding = s₀.shared.holding + es.countP Event.isLoss
  /-- While all owners are in the middle of nothing, every guard that is held counts besides. -/
  idle : (∀ w ∈ t.owners, w.stage = .idle) →
    t.shared.holding = s₀.shared.holding + es.countP Event.isLoss + t.held
  /-- At any time, every guard that is held counts, and every one that is made and not yet handed
  out or dropped. -/
  atLeast : s₀.shared.holding + es.countP Event.isLoss + (t.held + t.unclaimed) ≤ t.shared.holding
  /-- At any time, the owners that are in the middle of a command account for the rest. -/
  atMost : t.shared.holding ≤ s₀.shared.holding + es.countP Event.isLoss + t.held + t.busy

/-- However many guards are made and released, and whatever managers answer: the count of live
tasks is the number of guards that are held, and one more for every address that a manager has
not taken back. -/
theorem Traces.live_tasks_are_counted (h₀ : s₀.Fresh) (hn : s₀.NonNull) (h : Traces s₀ es t) :
    LiveTasks s₀ es t := by
  have hholding := h.holding_eq h₀
  have hdealt := h.dealt h₀ hn
  have hreleased := hdealt.released
  have hhanded := hdealt.handed
  obtain ⟨hleast, hmost⟩ := (h.recorded h₀).counted_bounds (h.attended h₀)
  have hbusy := t.occupied_le_busy
  refine ⟨?_, ?_, by omega, by omega⟩
  · intro hended
    have hnone : t.shared.counted = 0 := by
      apply List.countP_eq_zero.2
      intro v hv
      obtain ⟨fault, hp⟩ := hended v hv
      simp [Task.isCounted, hp]
    omega
  · intro hidle
    have hnobody : t.busy = 0 := by
      apply List.countP_eq_zero.2
      intro w hw
      simp [Stage.isIdle, hidle w hw]
    omega

/-- The task of the guard has ended long ago, but counts on. -/
theorem grudging_task_counts_on :
    ∃ es t, Traces grudging es t ∧ LiveTasks grudging es t ∧
      t.shared.holding = grudging.shared.holding + 1 ∧ t.guards.map Guard.state = [.released] ∧
      t.shared.tasks.map Task.phase = [.ended (some (.refused "mine"))] := by
  let order : List Actor := [.owner 0, .owner 0, .task 0, .task 0, .task 0, .task 0, .owner 0,
    .owner 0, .owner 0, .owner 0, .owner 0, .task 0, .task 0, .owner 0, .owner 0, .owner 0]
  let run := (grudging.trace? [] order).get rfl
  have hrun : grudging.trace? [] order = some run := (Option.some_get _).symm
  have h : Traces grudging run.1 run.2 := Traces.refl.of_trace? hrun
  have hlive := Traces.live_tasks_are_counted grudging_fresh grudging_nonNull h
  exact ⟨run.1, run.2, h, hlive, rfl, rfl, rfl⟩

end Threads

end PinnedHeap
