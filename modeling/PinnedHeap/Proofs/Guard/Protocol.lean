import Mathlib.Data.List.Nodup
import Mathlib.Data.List.Perm.Subperm
import PinnedHeap.Proofs.Guard.Steps

/-!
# The protocol between owners and tasks

`Threads.Orderly` is what holds in every reachable state. The gates of a task
agree with its phase. Every guard that has an address is backed by a task of
its own, which has confirmed the pin and has not been told to stop; so it
waits, and holds the address.
-/

namespace PinnedHeap

variable {σ ρ : Type}

/-! ## Tasks -/

namespace Task

/-- The gates of the task are as its phase has it. -/
def Coherent (t : Task σ) : Prop :=
  match t.phase with
  | .retain | .countIn | .reportRetained | .confirmPin => t.established.signal = .armed
  | .await => t.established.signal = .fired
  | .reportVanished | .unretain | .countOut | .reportUnretained | .confirmRelease | .close =>
    t.established.signal = .fired ∧ t.terminate.signal ≠ .armed
  | .ended _ => t.established.signal = .abandoned ∨ t.terminate.signal ≠ .armed

/-- The task has retained its address and not given it back. -/
def Holds (t : Task σ) : Prop :=
  match t.phase with
  | .countIn | .reportRetained | .confirmPin | .await | .reportVanished | .unretain => True
  | _ => False

instance (t : Task σ) : Decidable t.Holds := by
  unfold Holds
  split <;> infer_instance

/-- A task that has confirmed the pin and has not been told to stop waits. -/
theorem Coherent.phase_eq {t : Task σ} (ht : t.Coherent) (he : t.established.signal = .fired)
    (hs : t.terminate.signal = .armed) : t.phase = .await := by
  unfold Coherent at ht
  split at ht
  all_goals simp_all

theorem Coherent.holds {t : Task σ} (ht : t.Coherent) (he : t.established.signal = .fired)
    (hs : t.terminate.signal = .armed) : t.Holds := by
  rw [Holds, ht.phase_eq he hs]
  trivial

theorem fire_of_fired {g : Gate} (h : g.signal = .fired) : g.fire.signal = .fired := by
  simp [Gate.fire, Gate.fire?, h]

theorem abandon_of_fired {g : Gate} (h : g.signal = .fired) : g.abandon.signal = .fired := by
  simp [Gate.abandon, Gate.abandon?, h]

theorem abandon_of_armed {g : Gate} (h : g.signal = .armed) : g.abandon.signal = .abandoned := by
  simp [Gate.abandon, Gate.abandon?, h]

theorem fired_of_abandon {g : Gate} (h : g.abandon.signal = .fired) : g.signal = .fired := by
  unfold Gate.abandon Gate.abandon? at h
  split at h <;> simp_all

theorem fire_of_armed {g : Gate} (h : g.signal = .armed) : g.fire.signal = .fired := by
  simp [Gate.fire, Gate.fire?, h]

theorem fire_not_armed (g : Gate) : g.fire.signal ≠ .armed := by
  unfold Gate.fire Gate.fire?
  split <;> simp_all

theorem abandon_not_armed (g : Gate) : g.abandon.signal ≠ .armed := by
  unfold Gate.abandon Gate.abandon?
  split <;> simp_all

/-- What a task is made for, and what it has confirmed, stays; and it never goes back. -/
structure Continues (t t' : Task σ) : Prop where
  address : t'.address = t.address
  manager : t'.manager = t.manager
  established : t.established.signal = .fired → t'.established.signal = .fired
  onward : t'.phase.stepsLeft ≤ t.phase.stepsLeft

theorem Continues.refl (t : Task σ) : Continues t t := ⟨rfl, rfl, id, Nat.le_refl _⟩

theorem Continues.trans {t u v : Task σ} (h : Continues t u) (h' : Continues u v) :
    Continues t v where
  address := h'.address.trans h.address
  manager := h'.manager.trans h.manager
  established he := h'.established (h.established he)
  onward := Nat.le_trans h'.onward h.onward

theorem holds_iff {t : Task σ} :
    t.Holds ↔ Phase.unretain.stepsLeft ≤ t.phase.stepsLeft ∧
      t.phase.stepsLeft ≤ Phase.countIn.stepsLeft := by
  unfold Holds
  cases t.phase <;> simp [Phase.stepsLeft]

/-- A task that holds its address at one time and later on has held it all the while. -/
theorem Holds.between {t u v : Task σ} (ht : t.Holds) (hv : v.Holds) (htu : Continues t u)
    (huv : Continues u v) : u.Holds :=
  holds_iff.2 ⟨Nat.le_trans (holds_iff.1 hv).1 huv.onward,
    Nat.le_trans htu.onward (holds_iff.1 ht).2⟩

namespace Steps

variable {t t' : Task σ} {p p' : Shared σ}

theorem stepsLeft_lt (h : Steps t p t' p') : t'.phase.stepsLeft < t.phase.stepsLeft := by
  cases h <;> simp [Phase.stepsLeft, failed, *]

theorem continues (h : Steps t p t' p') : Continues t t' := by
  have honward := Nat.le_of_lt h.stepsLeft_lt
  cases h with
  | confirmPin hp => exact ⟨rfl, rfl, fire_of_fired, honward⟩
  | retainFails hp he => exact ⟨rfl, rfl, abandon_of_fired, honward⟩
  | unretainFails hp he => exact ⟨rfl, rfl, abandon_of_fired, honward⟩
  | closeFails hp he => exact ⟨rfl, rfl, abandon_of_fired, honward⟩
  | _ => exact ⟨rfl, rfl, id, honward⟩

theorem terminate (h : Steps t p t' p') : t'.terminate = t.terminate := by
  cases h <;> rfl

/-- There is one step in which a task confirms the pin. -/
theorem confirmed (h : Steps t p t' p') (hf : t'.established.signal = .fired) :
    t.established.signal = .fired ∨ t.phase = .confirmPin := by
  cases h with
  | confirmPin hp => exact .inr hp
  | retainFails hp he => exact .inl (fired_of_abandon hf)
  | unretainFails hp he => exact .inl (fired_of_abandon hf)
  | closeFails hp he => exact .inl (fired_of_abandon hf)
  | _ => exact .inl hf

theorem armed (h : Steps t p t' p') (ha : t'.established.signal = .armed) :
    t.established.signal = .armed := by
  cases h with
  | confirmPin hp => exact absurd ha (fire_not_armed _)
  | retainFails hp he => exact absurd ha (abandon_not_armed _)
  | unretainFails hp he => exact absurd ha (abandon_not_armed _)
  | closeFails hp he => exact absurd ha (abandon_not_armed _)
  | _ => exact ha

/-- There is one step in which a task comes to hold its address. -/
theorem holds (h : Steps t p t' p') (hh : t'.Holds) : t.Holds ∨ t.phase = .retain := by
  cases h with
  | retain hp ha => exact .inr hp
  | retainFails hp he => exact .inr hp
  | unretain hp ha => simp [Holds, hp]
  | unretainFails hp he => simp [Holds, hp]
  | countIn hp => simp [Holds, hp]
  | reportRetained hp => simp [Holds, hp]
  | confirmPin hp => simp [Holds, hp]
  | passTerminate hp hs => simp [Holds, hp]
  | loseTerminate hp hs => simp [Holds, hp]
  | reportVanished hp => simp [Holds, hp]
  | countOut hp => cases hh
  | reportUnretained hp => cases hh
  | confirmRelease hp => cases hh
  | close hp ha => cases hh
  | closeFails hp he => cases hh

theorem coherent (h : Steps t p t' p') (ht : t.Coherent) : t'.Coherent := by
  unfold Coherent at ht
  cases h with
  | retain hp ha => simpa [Coherent, hp] using ht
  | retainFails hp he =>
    rw [hp] at ht
    exact .inl (abandon_of_armed ht)
  | countIn hp => simpa [Coherent, hp] using ht
  | reportRetained hp => simpa [Coherent, hp] using ht
  | confirmPin hp =>
    rw [hp] at ht
    exact fire_of_armed ht
  | passTerminate hp hs =>
    rw [hp] at ht
    exact ⟨ht, by simp [hs]⟩
  | loseTerminate hp hs =>
    rw [hp] at ht
    exact ⟨ht, by simp [hs]⟩
  | reportVanished hp => simpa [Coherent, hp] using ht
  | unretain hp ha => simpa [Coherent, hp] using ht
  | unretainFails hp he =>
    rw [hp] at ht
    exact .inr ht.2
  | countOut hp => simpa [Coherent, hp] using ht
  | reportUnretained hp => simpa [Coherent, hp] using ht
  | confirmRelease hp => simpa [Coherent, hp] using ht
  | close hp ha =>
    rw [hp] at ht
    exact .inr ht.2
  | closeFails hp he =>
    rw [hp] at ht
    exact .inr ht.2

end Steps

end Task

namespace Shared

/-- Every task goes on as the same task. -/
def Grows (p p' : Shared σ) : Prop :=
  ∀ (j : Nat) (t : Task σ), p.tasks[j]? = some t →
    ∃ t', p'.tasks[j]? = some t' ∧ Task.Continues t t'

theorem Grows.of_eq {p p' : Shared σ} (h : p'.tasks = p.tasks) : Grows p p' := by
  intro j t ht
  exact ⟨t, h ▸ ht, .refl t⟩

theorem Grows.trans {p q r : Shared σ} (h : Grows p q) (h' : Grows q r) : Grows p r := by
  intro j t ht
  obtain ⟨u, hu, hcont⟩ := h j t ht
  obtain ⟨v, hv, hcont'⟩ := h' j u hu
  exact ⟨v, hv, hcont.trans hcont'⟩

theorem getElem?_modifyTask (p : Shared σ) (i j : Nat) (f : Task σ → Task σ) :
    (p.modifyTask i f).tasks[j]? = if j = i then p.tasks[j]?.map f else p.tasks[j]? := by
  rw [modifyTask, List.getElem?_modify]
  by_cases hj : j = i
  · simp [hj]
  · simp [hj, Ne.symm hj]

theorem getElem?_modifyTask_self {p : Shared σ} {i : Nat} {t : Task σ}
    (ht : p.tasks[i]? = some t) (f : Task σ → Task σ) :
    (p.modifyTask i f).tasks[i]? = some (f t) := by
  rw [getElem?_modifyTask, if_pos rfl, ht, Option.map_some]

theorem Grows.modifyTask {p : Shared σ} {i : Nat} {f : Task σ → Task σ}
    (hf : ∀ t, p.tasks[i]? = some t → Task.Continues t (f t)) : Grows p (p.modifyTask i f) := by
  intro j t ht
  rw [getElem?_modifyTask]
  by_cases hj : j = i
  · subst hj
    rw [if_pos rfl, ht]
    exact ⟨f t, rfl, hf t ht⟩
  · rw [if_neg hj]
    exact ⟨t, ht, .refl t⟩

theorem Grows.tellTask (p : Shared σ) (i : Nat) : Grows p (p.tellTask i) :=
  .modifyTask fun _ _ => ⟨rfl, rfl, id, Nat.le_refl _⟩

theorem Grows.append {p : Shared σ} (ts : List (Task σ)) :
    Grows p { p with tasks := p.tasks ++ ts } := by
  intro j t ht
  refine ⟨t, ?_, .refl t⟩
  exact (List.getElem?_append_left (List.getElem?_eq_some_iff.1 ht).1).trans ht

end Shared

theorem Owner.Steps.grows {w w' : Owner σ ρ} {p p' : Shared σ} (h : Owner.Steps w p w' p') :
    Shared.Grows p p' := by
  cases h with
  | launch hs hr => exact .append _
  | tell hs hg ht => exact .tellTask _ _
  | drop hs ha ht => exact .tellTask _ _
  | _ => exact .of_eq rfl

theorem getElem?_append_singleton {α : Type} {l : List α} {k : Nat} {x y : α}
    (h : (l ++ [y])[k]? = some x) : l[k]? = some x ∨ (k = l.length ∧ x = y) := by
  rcases Nat.lt_trichotomy k l.length with hk | hk | hk
  · rw [List.getElem?_append_left hk] at h
    exact .inl h
  · subst hk
    rw [List.getElem?_concat_length] at h
    cases h
    exact .inr ⟨rfl, rfl⟩
  · rw [List.getElem?_eq_none (by simp; omega)] at h
    cases h

/-- An owner goes on from a gate only if that is not armed. -/
theorem Owner.Steps.not_armed {w w' : Owner σ ρ} {p p' : Shared σ} (h : Owner.Steps w p w' p')
    {j a : Nat} {cleanup : Action Notice σ Unit} (hs : w.stage = .awaitingPin j a cleanup)
    {u : Task σ} (hu : p.tasks[j]? = some u) : u.established.signal ≠ .armed := by
  cases h with
  | passPin hs' ht hf =>
    rw [hs] at hs'
    cases hs'
    rw [hu] at ht
    cases ht
    simp [hf]
  | missPin hs' ht =>
    rw [hs] at hs'
    cases hs'
    simp [ht u hu]
  | _ => simp_all

/-- A task that is told to stop is otherwise left alone, and so are all others. -/
theorem Shared.tellTask_cases {p : Shared σ} {i j : Nat} {v : Task σ}
    (hv : (p.tellTask i).tasks[j]? = some v) :
    p.tasks[j]? = some v ∨
      ∃ u, p.tasks[j]? = some u ∧ v = { u with terminate := u.terminate.fire } := by
  rw [tellTask, getElem?_modifyTask] at hv
  split at hv
  · obtain ⟨u, hu, rfl⟩ := Option.map_eq_some_iff.1 hv
    exact .inr ⟨u, hu, rfl⟩
  · exact .inl hv

/-- Owners start tasks and tell them to stop; beyond that they leave them alone. -/
theorem Owner.Steps.task_cases {w w' : Owner σ ρ} {p p' : Shared σ} (h : Owner.Steps w p w' p')
    {j : Nat} {v : Task σ} (hv : p'.tasks[j]? = some v) :
    p.tasks[j]? = some v ∨
    (∃ u, p.tasks[j]? = some u ∧ v = { u with terminate := u.terminate.fire }) ∨
    ∃ name manager a cleanup, w'.stage = .awaitingPin j a cleanup ∧
      v = { thread := name, address := a, manager } := by
  cases h with
  | launch hs hr =>
    rcases getElem?_append_singleton hv with hv | ⟨rfl, rfl⟩
    · exact .inl hv
    · exact .inr (.inr ⟨_, _, _, _, rfl, rfl⟩)
  | tell hs hg ht => exact (Shared.tellTask_cases hv).imp id .inl
  | drop hs ha ht => exact (Shared.tellTask_cases hv).imp id .inl
  | _ => exact .inl hv

/-- After the step of a task, that task is as the step leaves it. -/
theorem Task.Steps.getElem?_self {u u' : Task σ} {p p' : Shared σ} {i : Nat}
    (h : Task.Steps u p u' p') (hu : p.tasks[i]? = some u) :
    (p'.modifyTask i fun _ => u').tasks[i]? = some u' :=
  Shared.getElem?_modifyTask_self (h.tasks ▸ hu) _

/-- A task takes its steps alone. -/
theorem Task.Steps.getElem?_other {u u' : Task σ} {p p' : Shared σ} {i j : Nat}
    (h : Task.Steps u p u' p') (hj : j ≠ i) :
    (p'.modifyTask i fun _ => u').tasks[j]? = p.tasks[j]? := by
  rw [Shared.getElem?_modifyTask, if_neg hj, h.tasks]

theorem Task.Steps.task_cases {u u' v : Task σ} {p p' : Shared σ} {i j : Nat}
    (h : Task.Steps u p u' p') (hu : p.tasks[i]? = some u)
    (hv : (p'.modifyTask i fun _ => u').tasks[j]? = some v) :
    (j = i ∧ v = u') ∨ (j ≠ i ∧ p.tasks[j]? = some v) := by
  by_cases hj : j = i
  · subst hj
    rw [h.getElem?_self hu] at hv
    cases hv
    exact .inl ⟨rfl, rfl⟩
  · rw [h.getElem?_other hj] at hv
    exact .inr ⟨hj, hv⟩

/-! ## Who answers for a task -/

/-- Of lists that are put together, one is replaced. -/
theorem flatMap_set {α β : Type} (f : α → List β) {l : List α} {i : Nat} {x : α}
    (hx : l[i]? = some x) :
    ∃ rest, (l.flatMap f).Perm (f x ++ rest) ∧
      ∀ y, ((l.set i y).flatMap f).Perm (f y ++ rest) := by
  obtain ⟨hi, rfl⟩ := List.getElem?_eq_some_iff.1 hx
  refine ⟨(l.take i).flatMap f ++ (l.drop (i + 1)).flatMap f, ?_, ?_⟩
  · have hl : l = l.take i ++ l[i] :: l.drop (i + 1) := by simp
    conv => lhs; rw [hl, List.flatMap_append, List.flatMap_cons]
    exact List.perm_append_comm_assoc _ _ _
  · intro y
    rw [List.set_eq_take_append_cons_drop, if_pos hi, List.flatMap_append, List.flatMap_cons]
    exact List.perm_append_comm_assoc _ _ _

/-- The task that the owner answers for because of what it is in the middle of. -/
def Stage.claim? : Stage σ → Option Nat
  | .awaitingPin i _ _ => some i
  | .cleaningUp (.ok (.ok g)) _ => g.task
  | .dropping g _ => g.task
  | _ => none

/-- The tasks that the owner has yet to tell to stop. -/
def Owner.claims (w : Owner σ ρ) : List Nat :=
  w.guards.flatMap (fun g => g.task.toList) ++ w.stage.claim?.toList

/-- The tasks that some owner has yet to tell to stop. -/
def Threads.claims (s : Threads σ ρ) : List Nat := s.owners.flatMap Owner.claims

/-- An owner answers for the task behind a guard. -/
theorem Threads.mem_claims_of_guard {s : Threads σ ρ} {i k j : Nat} {w : Owner σ ρ} {g : Guard}
    (hw : s.owners[i]? = some w) (hg : w.guards[k]? = some g) (hj : g.task = some j) :
    j ∈ s.claims := by
  refine List.mem_flatMap.2 ⟨w, List.mem_of_getElem? hw, List.mem_append_left _ ?_⟩
  refine List.mem_flatMap.2 ⟨g, List.mem_of_getElem? hg, ?_⟩
  rw [hj]
  exact List.mem_singleton_self j

/-- An owner answers for the task that it makes a guard with. -/
theorem Threads.mem_claims_of_stage {s : Threads σ ρ} {i j : Nat} {w : Owner σ ρ}
    (hw : s.owners[i]? = some w) (hj : w.stage.claim? = some j) : j ∈ s.claims := by
  refine List.mem_flatMap.2 ⟨w, List.mem_of_getElem? hw, List.mem_append_right _ ?_⟩
  rw [hj]
  exact List.mem_singleton_self j

namespace Owner

variable {w w' : Owner σ ρ} {p p' : Shared σ}

theorem claims_perm_of_set {k : Nat} {g : Guard} (hg : w.guards[k]? = some g) (g' : Guard)
    (hguards : w'.guards = w.guards.set k g') (ht : g'.task = g.task)
    (hs : w'.stage.claim? = w.stage.claim?) : w'.claims.Perm w.claims := by
  obtain ⟨rest, hbefore, hafter⟩ := flatMap_set (fun g : Guard => g.task.toList) hg
  rw [claims, claims, hguards, hs]
  refine List.Perm.append_right _ ((hafter g').trans ?_)
  rw [ht]
  exact hbefore.symm

theorem claims_sub (hguards : w'.guards = w.guards)
    (hs : w'.stage.claim? = w.stage.claim? ∨ w'.stage.claim? = none) :
    w'.claims.Subperm w.claims := by
  rw [claims, claims, hguards]
  rcases hs with hs | hs
  · rw [hs]
  · rw [hs, Option.toList_none, List.append_nil]
    exact (List.sublist_append_left _ _).subperm

/-- An owner answers for fewer tasks after a step, or for a new one, or it has told one to
stop. -/
theorem Steps.claims (h : Steps w p w' p') :
    (w'.claims.Subperm w.claims ∧ p'.tasks = p.tasks) ∨
    (∃ t, w'.claims = w.claims ++ [p.tasks.length] ∧ p'.tasks = p.tasks ++ [t] ∧
      t.terminate.signal = .armed ∧ t.Coherent) ∨
    (∃ i, w.claims.Perm (i :: w'.claims) ∧ p' = p.tellTask i) := by
  cases h with
  | launch hs hr =>
    refine .inr (.inl ⟨_, ?_, rfl, rfl, rfl⟩)
    simp [Owner.claims, goTo, hs, Stage.claim?]
  | @tell k address unwinding g i hs hg ht =>
    refine .inr (.inr ⟨i, ?_, rfl⟩)
    obtain ⟨rest, hbefore, hafter⟩ := flatMap_set (fun g : Guard => g.task.toList) hg
    simp only [Owner.claims, goTo, hs, Stage.claim?, Option.toList_none, List.append_nil]
    apply hbefore.trans
    rw [ht]
    exact ((hafter { g with task := none }).symm).cons i
  | @store k slot program g hs hp hg hb ha =>
    refine .inl ⟨List.Perm.subperm ?_, rfl⟩
    exact claims_perm_of_set hg { g with bound := true, slot := some slot } rfl rfl
      (by simp [finish, hs, Stage.claim?])
  | @release k unwinding program g hs hp hg ha =>
    refine .inl ⟨List.Perm.subperm ?_, rfl⟩
    exact claims_perm_of_set hg { g with address := 0 } rfl rfl (by simp [goTo, hs, Stage.claim?])
  | @clear k address unwinding g slot hs hg hslot =>
    refine .inl ⟨List.Perm.subperm ?_, rfl⟩
    exact claims_perm_of_set hg { g with slot := none } rfl rfl (by simp [goTo, hs, Stage.claim?])
  | passPin hs ht hf => exact .inl ⟨claims_sub rfl (.inl (by rw [hs]; rfl)), rfl⟩
  | cleanUpDrops hs he => exact .inl ⟨claims_sub rfl (.inl (by rw [hs]; rfl)), rfl⟩
  | @drop g e i hs ha ht =>
    refine .inr (.inr ⟨i, ?_, rfl⟩)
    simp only [Owner.claims, goTo, hs, Stage.claim?, ht, Option.toList_some, Option.toList_none,
      List.append_nil]
    exact List.perm_append_singleton i _
  | made hs hc =>
    refine .inl ⟨List.Perm.subperm (List.Perm.of_eq ?_), rfl⟩
    simp [Owner.claims, finish, hs, Stage.claim?]
  | _ => exact .inl ⟨claims_sub rfl (.inr rfl), rfl⟩

end Owner

/-! ## The invariant -/

/-- The guard has a task that has confirmed a pin of the address. -/
def Guard.Backed (p : Shared σ) (address : Nat) (g : Guard) : Prop :=
  ∃ (j : Nat) (t : Task σ), g.task = some j ∧ p.tasks[j]? = some t ∧ t.address = address ∧
    t.established.signal = .fired

theorem Guard.Backed.mono {p p' : Shared σ} (hp : Shared.Grows p p') {a : Nat} {g g' : Guard}
    (hg : g.Backed p a) (ht : g'.task = g.task) : g'.Backed p' a := by
  obtain ⟨j, t, hj, htask, ha, he⟩ := hg
  obtain ⟨t', htask', hcont⟩ := hp j t htask
  exact ⟨j, t', ht.trans hj, htask', hcont.address.trans ha, hcont.established he⟩

/-- What an owner is in the middle of agrees with its guards and with its task. -/
def Stage.Orderly (p : Shared σ) (guards : List Guard) : Stage σ → Prop
  | .awaitingPin i address _ => ∃ t, p.tasks[i]? = some t ∧ t.address = address
  | .cleaningUp (.ok (.ok g)) _ => g.Backed p g.address ∧ g.slot = none
  | .dropping g _ => g.Backed p g.address ∧ g.slot = none
  | .clearingCell k a _ =>
    a ≠ 0 ∧ ∃ g, guards[k]? = some g ∧ g.address = 0 ∧ g.Backed p a
  | .telling k a _ => a ≠ 0 ∧ ∃ g, guards[k]? = some g ∧ g.address = 0 ∧ g.Backed p a
  | _ => True

/-- The guards of an owner are backed by tasks, and what it is in the middle of agrees. -/
structure Owner.Orderly (p : Shared σ) (w : Owner σ ρ) : Prop where
  guard : ∀ (k : Nat) (g : Guard), w.guards[k]? = some g → g.address ≠ 0 → g.Backed p g.address
  slot : ∀ (k : Nat) (g : Guard) (slot : Slot), w.guards[k]? = some g → g.slot = some slot →
    g.bound = true ∧ (g.address = 0 → ∃ a unwinding, w.stage = .clearingCell k a unwinding)
  stage : w.stage.Orderly p w.guards

/-- The invariant of owners and tasks. -/
structure Threads.Orderly (s : Threads σ ρ) : Prop where
  coherent : ∀ (j : Nat) (t : Task σ), s.shared.tasks[j]? = some t → t.Coherent
  owner : ∀ (i : Nat) (w : Owner σ ρ), s.owners[i]? = some w → w.Orderly s.shared
  nodup : s.claims.Nodup
  armed : ∀ j ∈ s.claims, ∃ t, s.shared.tasks[j]? = some t ∧ t.terminate.signal = .armed
  awaited : ∀ (j : Nat) (t : Task σ), s.shared.tasks[j]? = some t →
    t.established.signal = .armed → ∃ (i : Nat) (w : Owner σ ρ) (a : Nat)
      (cleanup : Action Notice σ Unit), s.owners[i]? = some w ∧ w.stage = .awaitingPin j a cleanup

theorem Stage.Orderly.mono {p p' : Shared σ} (hp : Shared.Grows p p') {guards : List Guard}
    {stage : Stage σ} (hs : stage.Orderly p guards) : stage.Orderly p' guards := by
  unfold Stage.Orderly at *
  split at hs
  · obtain ⟨t, ht, ha⟩ := hs
    obtain ⟨t', ht', hcont⟩ := hp _ t ht
    exact ⟨t', ht', hcont.address.trans ha⟩
  · exact ⟨hs.1.mono hp rfl, hs.2⟩
  · exact ⟨hs.1.mono hp rfl, hs.2⟩
  · obtain ⟨ha, g, hg, hzero, hback⟩ := hs
    exact ⟨ha, g, hg, hzero, hback.mono hp rfl⟩
  · obtain ⟨ha, g, hg, hzero, hback⟩ := hs
    exact ⟨ha, g, hg, hzero, hback.mono hp rfl⟩
  · trivial

theorem getElem?_set_self_of_some {α : Type} {l : List α} {i : Nat} {x : α} (hx : l[i]? = some x)
    (y : α) : (l.set i y)[i]? = some y :=
  List.getElem?_set_self (List.getElem?_eq_some_iff.1 hx).1

/-- What is at a place of a list in which one place was set. -/
theorem getElem?_set_eq_some {α : Type} {l : List α} {i j : Nat} {x y z : α}
    (hx : l[i]? = some x) (h : (l.set i y)[j]? = some z) :
    (j = i ∧ z = y) ∨ (j ≠ i ∧ l[j]? = some z) := by
  by_cases hj : j = i
  · subst hj
    rw [getElem?_set_self_of_some hx] at h
    cases h
    exact .inl ⟨rfl, rfl⟩
  · rw [List.getElem?_set_ne (Ne.symm hj)] at h
    exact .inr ⟨hj, h⟩

namespace Owner.Orderly

variable {w w' : Owner σ ρ} {p p' : Shared σ}

theorem mono (hw : w.Orderly p) (hp : Shared.Grows p p') : w.Orderly p' where
  guard k g hg ha := (hw.guard k g hg ha).mono hp rfl
  slot := hw.slot
  stage := hw.stage.mono hp

/-- A step that leaves the guards alone. -/
theorem of_guards_eq (hw : w.Orderly p) (hp : Shared.Grows p p') (hg : w'.guards = w.guards)
    (hold : ∀ k a unwinding, w.stage ≠ .clearingCell k a unwinding)
    (hs : w'.stage.Orderly p' w.guards) : w'.Orderly p' where
  guard k g hk ha := (hw.guard k g (hg ▸ hk) ha).mono hp rfl
  slot k g slot hk hslot := by
    obtain ⟨hb, hclear⟩ := hw.slot k g slot (hg ▸ hk) hslot
    refine ⟨hb, ?_⟩
    intro ha
    obtain ⟨a, unwinding, hstage⟩ := hclear ha
    exact absurd hstage (hold k a unwinding)
  stage := by
    rw [hg]
    exact hs

/-- A step that changes one guard. -/
theorem of_set (hw : w.Orderly p) (hp : Shared.Grows p p') {k : Nat} {g : Guard}
    (hg : w.guards[k]? = some g) (g' : Guard) (hguards : w'.guards = w.guards.set k g')
    (hold : ∀ j a unwinding, w.stage = .clearingCell j a unwinding → j = k)
    (hguard : g'.address ≠ 0 → g'.Backed p' g'.address)
    (hslot : ∀ slot, g'.slot = some slot →
      g'.bound = true ∧ (g'.address = 0 → ∃ a unwinding, w'.stage = .clearingCell k a unwinding))
    (hs : w'.stage.Orderly p' (w.guards.set k g')) : w'.Orderly p' where
  guard j x hx ha := by
    rw [hguards] at hx
    rcases getElem?_set_eq_some hg hx with ⟨rfl, rfl⟩ | ⟨-, hx⟩
    · exact hguard ha
    · exact (hw.guard j x hx ha).mono hp rfl
  slot j x slot hx hxslot := by
    rw [hguards] at hx
    rcases getElem?_set_eq_some hg hx with ⟨rfl, rfl⟩ | ⟨hj, hx⟩
    · exact hslot slot hxslot
    · obtain ⟨hb, hclear⟩ := hw.slot j x slot hx hxslot
      refine ⟨hb, ?_⟩
      intro ha
      obtain ⟨a, unwinding, hstage⟩ := hclear ha
      exact absurd (hold j a unwinding hstage) hj
  stage := by
    rw [hguards]
    exact hs

/-- A guard that is being released has no address any more, and the task that it had given its
address for is still its own. -/
theorem released (hw : w.Orderly p) {k a : Nat} {unwinding : Bool}
    (hs : w.stage = .clearingCell k a unwinding ∨ w.stage = .telling k a unwinding) :
    a ≠ 0 ∧ ∃ g, w.guards[k]? = some g ∧ g.address = 0 ∧ g.Backed p a := by
  have hstage := hw.stage
  rcases hs with hs | hs
  · rwa [hs] at hstage
  · rwa [hs] at hstage

theorem released_guard (hw : w.Orderly p) {k a : Nat} {unwinding : Bool}
    (hs : w.stage = .clearingCell k a unwinding ∨ w.stage = .telling k a unwinding) {g : Guard}
    (hg : w.guards[k]? = some g) : g.address = 0 ∧ g.Backed p a := by
  obtain ⟨-, x, hx, hback⟩ := hw.released hs
  rw [hg] at hx
  cases hx
  exact hback

/-- A guard that is being released is there, and has a task. -/
theorem not_lost (hw : w.Orderly p) {k a : Nat} {unwinding : Bool}
    (hs : w.stage = .clearingCell k a unwinding ∨ w.stage = .telling k a unwinding) :
    ¬ (w.guards[k]? = none ∨ ∃ g, w.guards[k]? = some g ∧ g.task = none) := by
  obtain ⟨-, g, hg, -, j, t, hj, -⟩ := hw.released hs
  simp [hg, hj]

end Owner.Orderly

/-- An owner's own steps keep its part of the invariant. -/
theorem Owner.Steps.orderly {w w' : Owner σ ρ} {p p' : Shared σ} (h : Owner.Steps w p w' p')
    (hw : w.Orderly p) : w'.Orderly p' := by
  have hgrow := h.grows
  have hstage := hw.stage
  cases h with
  | @store k slot program g hs hp hg hb ha =>
    refine hw.of_set hgrow hg { g with bound := true, slot := some slot } rfl (by simp [hs]) ?_ ?_
      ?_
    · intro _
      exact (hw.guard k g hg ha).mono hgrow rfl
    · intro _ _
      exact ⟨rfl, fun hzero => absurd hzero ha⟩
    · rw [Owner.finish]
      trivial
  | @release k unwinding program g hs hp hg ha =>
    refine hw.of_set hgrow hg { g with address := 0 } rfl (by simp [hs]) ?_ ?_ ?_
    · intro hzero
      exact absurd rfl hzero
    · intro slot hslot
      exact ⟨(hw.slot k g slot hg hslot).1, fun _ => ⟨_, _, rfl⟩⟩
    · exact ⟨ha, _, getElem?_set_self_of_some hg _, rfl, (hw.guard k g hg ha).mono hgrow rfl⟩
  | @launch settings manager address cleanup hs hr =>
    refine hw.of_guards_eq hgrow rfl (by simp [hs]) ?_
    exact ⟨{ thread := settings.name, address, manager }, List.getElem?_concat_length, rfl⟩
  | passPin hs ht hf =>
    rw [hs] at hstage
    obtain ⟨t, ht', ha⟩ := hstage
    rw [ht] at ht'
    cases ht'
    exact hw.of_guards_eq hgrow rfl (by simp [hs]) ⟨⟨_, _, rfl, ht, ha, hf⟩, rfl⟩
  | @cleanUpDrops cleanup g e hs he =>
    rw [hs] at hstage
    exact hw.of_guards_eq hgrow rfl (by simp [hs]) ⟨hstage.1.mono hgrow rfl, hstage.2⟩
  | @made cleanup g hs hc =>
    rw [hs] at hstage
    obtain ⟨hback, hslot⟩ := hstage
    refine ⟨?_, ?_, trivial⟩
    · intro k x hx ha
      rcases getElem?_append_singleton hx with hx | ⟨-, rfl⟩
      · exact (hw.guard k x hx ha).mono hgrow rfl
      · exact hback.mono hgrow rfl
    · intro k x slot hx hxslot
      rcases getElem?_append_singleton hx with hx | ⟨-, rfl⟩
      · obtain ⟨hb, hclear⟩ := hw.slot k x slot hx hxslot
        refine ⟨hb, ?_⟩
        intro hzero
        obtain ⟨a, u, hj⟩ := hclear hzero
        rw [hs] at hj
        cases hj
      · rw [hslot] at hxslot
        cases hxslot
  | @clear k a unwinding g slot hs hg hslot =>
    obtain ⟨hzero, hback⟩ := hw.released_guard (.inl hs) hg
    refine hw.of_set hgrow hg { g with slot := none } rfl ?_ ?_ ?_ ?_
    · intro j b u hclear
      rw [hs] at hclear
      cases hclear
      rfl
    · exact fun hne => absurd hzero hne
    · intro _ hnone
      cases hnone
    · exact ⟨(hw.released (.inl hs)).1, _, getElem?_set_self_of_some hg _, hzero,
        hback.mono hgrow rfl⟩
  | @clearUnbound k a unwinding g hs hg hslot =>
    rw [hs] at hstage
    refine ⟨hw.guard, ?_, hstage⟩
    intro j x slot hx hxslot
    have hx : w.guards[j]? = some x := hx
    obtain ⟨hb, hclear⟩ := hw.slot j x slot hx hxslot
    refine ⟨hb, ?_⟩
    intro hzero
    -- only the guard that is being released may be without an address, and it has no slot
    obtain ⟨b, u, hj⟩ := hclear hzero
    rw [hs] at hj
    cases hj
    rw [hg] at hx
    cases hx
    rw [hslot] at hxslot
    cases hxslot
  | clearNone hs hg => exact absurd (.inl hg) (hw.not_lost (.inl hs))
  | @tell k a unwinding g i hs hg ht =>
    obtain ⟨hzero, -⟩ := hw.released_guard (.inr hs) hg
    refine hw.of_set hgrow hg { g with task := none } rfl (by simp [hs]) ?_ ?_ trivial
    · exact fun hne => absurd hzero hne
    · intro slot hslot
      obtain ⟨b, u, hclear⟩ := (hw.slot k g slot hg hslot).2 hzero
      rw [hs] at hclear
      cases hclear
  | tellNone hs hg => exact absurd (.inl hg) (hw.not_lost (.inr hs))
  | tellNobody hs hg ht => exact absurd (.inr ⟨_, hg, ht⟩) (hw.not_lost (.inr hs))
  | _ => exact hw.of_guards_eq hgrow rfl (by simp_all) trivial

theorem Task.Coherent.tell {t : Task σ} (ht : t.Coherent) :
    Task.Coherent { t with terminate := t.terminate.fire } := by
  have hfire := Task.fire_not_armed t.terminate
  cases hp : t.phase <;> simp_all [Task.Coherent]

namespace Threads

variable {s t u : Threads σ ρ}

theorem Grows.of_task {p p' : Shared σ} {i : Nat} {u u' : Task σ} (hu : p.tasks[i]? = some u)
    (h : Task.Steps u p u' p') : Shared.Grows p (p'.modifyTask i fun _ => u') := by
  have hbefore : Shared.Grows p p' := .of_eq h.tasks
  refine hbefore.trans (.modifyTask ?_)
  intro t ht
  rw [h.tasks, hu] at ht
  cases ht
  exact h.continues

/-- Tasks go on as the same tasks, whoever takes a step. -/
theorem Moves.grows {a : Actor} (h : Moves s a t) : Shared.Grows s.shared t.shared := by
  cases h with
  | owner hw h => exact h.grows
  | task hu h => exact Grows.of_task hu h

theorem Moves.coherent {a : Actor} (h : Moves s a t) (hs : s.Orderly) (j : Nat) (v : Task σ)
    (hv : t.shared.tasks[j]? = some v) : v.Coherent := by
  cases h with
  | owner hw h =>
    rcases h.task_cases hv with hv | ⟨x, hx, rfl⟩ | ⟨_, _, _, _, -, rfl⟩
    · exact hs.coherent j v hv
    · exact (hs.coherent j x hx).tell
    · rfl
  | @task i x x' p ns hx h =>
    rcases h.task_cases hx hv with ⟨rfl, rfl⟩ | ⟨-, hv⟩
    · exact h.coherent (hs.coherent j x hx)
    · exact hs.coherent j v hv

theorem Moves.owner_orderly {a : Actor} (h : Moves s a t) (hs : s.Orderly) (i : Nat)
    (w : Owner σ ρ) (hw : t.owners[i]? = some w) : w.Orderly t.shared := by
  cases h with
  | @owner j v v' p ns hv h =>
    rcases getElem?_set_eq_some hv hw with ⟨rfl, rfl⟩ | ⟨-, hw⟩
    · exact h.orderly (hs.owner i v hv)
    · exact (hs.owner i w hw).mono h.grows
  | task hu h => exact (hs.owner i w hw).mono (Grows.of_task hu h)

theorem Moves.claims {a : Actor} (h : Moves s a t) (hs : s.Orderly) :
    t.claims.Nodup ∧
      ∀ j ∈ t.claims, ∃ v, t.shared.tasks[j]? = some v ∧ v.terminate.signal = .armed := by
  cases h with
  | @task i x x' p ns hx h =>
    refine ⟨hs.nodup, ?_⟩
    intro j hj
    obtain ⟨v, hv, harmed⟩ := hs.armed j hj
    by_cases hj : j = i
    · subst hj
      rw [hv] at hx
      cases hx
      exact ⟨x', h.getElem?_self hv, by rw [h.terminate]; exact harmed⟩
    · exact ⟨v, by rw [h.getElem?_other hj, hv], harmed⟩
  | @owner i w w' p ns hw h =>
    obtain ⟨rest, hbefore, hafter⟩ := flatMap_set Owner.claims hw
    have hnodup := hbefore.nodup_iff.1 hs.nodup
    have hold : ∀ j, j ∈ w.claims ++ rest → j ∈ s.claims := fun j hj => hbefore.mem_iff.2 hj
    have hnew : ∀ j, j ∈ (s.owners.set i w').flatMap Owner.claims → j ∈ w'.claims ++ rest :=
      fun j hj => (hafter w').mem_iff.1 hj
    rcases h.claims with ⟨hsub, htasks⟩ | ⟨x, hclaims, htasks, harmed, -⟩ | ⟨k, hperm, rfl⟩
    · -- nothing is claimed that was not claimed before
      have hsub' : (w'.claims ++ rest).Subperm (w.claims ++ rest) :=
        (List.subperm_append_right rest).2 hsub
      refine ⟨(hafter w').nodup_iff.2 ?_, ?_⟩
      · obtain ⟨l, hperm, hl⟩ := hsub'
        exact hperm.nodup_iff.1 (hnodup.sublist hl)
      · intro j hj
        obtain ⟨v, hv, ha⟩ := hs.armed j (hold j (hsub'.subset (hnew j hj)))
        exact ⟨v, htasks ▸ hv, ha⟩
    · -- the new task comes behind all others
      have hlt : ∀ j, j ∈ w.claims ++ rest → j < s.shared.tasks.length := by
        intro j hj
        obtain ⟨v, hv, -⟩ := hs.armed j (hold j hj)
        exact (List.getElem?_eq_some_iff.1 hv).1
      have hperm : (w'.claims ++ rest).Perm (s.shared.tasks.length :: (w.claims ++ rest)) := by
        rw [hclaims, List.append_assoc]
        exact List.perm_middle
      refine ⟨(hafter w').nodup_iff.2 (hperm.nodup_iff.2 ?_), ?_⟩
      · exact List.nodup_cons.2 ⟨fun hmem => Nat.lt_irrefl _ (hlt _ hmem), hnodup⟩
      · intro j hj
        rcases List.mem_cons.1 (hperm.mem_iff.1 (hnew j hj)) with rfl | hj
        · exact ⟨x, by rw [htasks, List.getElem?_concat_length], harmed⟩
        · obtain ⟨v, hv, ha⟩ := hs.armed j (hold j hj)
          exact ⟨v, by rw [htasks, List.getElem?_append_left (hlt j hj), hv], ha⟩
    · -- the task that is told to stop is not claimed any longer
      have hperm' : (w.claims ++ rest).Perm (k :: (w'.claims ++ rest)) := hperm.append_right rest
      obtain ⟨hk, hnodup'⟩ := List.nodup_cons.1 (hperm'.nodup_iff.1 hnodup)
      refine ⟨(hafter w').nodup_iff.2 hnodup', ?_⟩
      intro j hj
      have hmem := hnew j hj
      obtain ⟨v, hv, ha⟩ := hs.armed j (hold j (hperm'.mem_iff.2 (List.mem_cons_of_mem _ hmem)))
      have hj : j ≠ k := fun heq => hk (heq ▸ hmem)
      exact ⟨v, by rw [Shared.tellTask, Shared.getElem?_modifyTask, if_neg hj, hv], ha⟩

/-- An owner that waits for a pin waits on as long as the task can still confirm it. -/
theorem Moves.awaited {a : Actor} (h : Moves s a t) (hs : s.Orderly) (j : Nat) (v : Task σ)
    (hv : t.shared.tasks[j]? = some v) (ha : v.established.signal = .armed) :
    ∃ (i : Nat) (w : Owner σ ρ) (b : Nat) (cleanup : Action Notice σ Unit),
      t.owners[i]? = some w ∧ w.stage = .awaitingPin j b cleanup := by
  cases h with
  | @owner k x x' p ns hx h =>
    -- whoever waits for a task that was there before goes on waiting
    have hkeep : ∀ {u : Task σ}, s.shared.tasks[j]? = some u → u.established.signal = .armed →
        ∃ (i : Nat) (w : Owner σ ρ) (b : Nat) (cleanup : Action Notice σ Unit),
          (s.owners.set k x')[i]? = some w ∧ w.stage = .awaitingPin j b cleanup := by
      intro u hu ha
      obtain ⟨i, w, b, cleanup, hw, hstage⟩ := hs.awaited j u hu ha
      by_cases hi : k = i
      · subst hi
        rw [hx] at hw
        cases hw
        exact absurd ha (h.not_armed hstage hu)
      · exact ⟨i, w, b, cleanup, by rw [List.getElem?_set_ne hi, hw], hstage⟩
    rcases h.task_cases hv with hv | ⟨u, hu, rfl⟩ | ⟨_, _, b, cleanup, hstage, -⟩
    · exact hkeep hv ha
    · exact hkeep hu ha
    · exact ⟨k, x', b, cleanup, getElem?_set_self_of_some hx x', hstage⟩
  | @task i x x' p ns hx h =>
    rcases h.task_cases hx hv with ⟨rfl, rfl⟩ | ⟨-, hv⟩
    · exact hs.awaited j x hx (h.armed ha)
    · exact hs.awaited j v hv ha

theorem Moves.orderly {a : Actor} (h : Moves s a t) (hs : s.Orderly) : t.Orderly where
  coherent := h.coherent hs
  owner := h.owner_orderly hs
  nodup := (h.claims hs).1
  armed := (h.claims hs).2
  awaited := h.awaited hs

/-- No guard has been made and no task started. -/
structure Fresh (s : Threads σ ρ) : Prop where
  tasks : s.shared.tasks = []
  owner : ∀ (i : Nat) (w : Owner σ ρ), s.owners[i]? = some w → w.guards = [] ∧ w.stage = .idle

theorem Fresh.claims (hs : s.Fresh) : s.claims = [] := by
  apply List.flatMap_eq_nil_iff.2
  intro w hw
  obtain ⟨i, hi⟩ := List.mem_iff_getElem?.1 hw
  obtain ⟨hg, hstage⟩ := hs.owner i w hi
  rw [Owner.claims, hg, hstage]
  rfl

theorem Fresh.orderly (hs : s.Fresh) : s.Orderly where
  coherent j t ht := by
    rw [hs.tasks] at ht
    cases ht
  owner i w hw := by
    obtain ⟨hg, hstage⟩ := hs.owner i w hw
    refine ⟨?_, ?_, ?_⟩
    · intro k g hk
      rw [hg] at hk
      cases hk
    · intro k g slot hk
      rw [hg] at hk
      cases hk
    · rw [hstage]
      trivial
  nodup := by
    rw [hs.claims]
    exact List.nodup_nil
  armed j hj := by
    rw [hs.claims] at hj
    cases hj
  awaited j t ht := by
    rw [hs.tasks] at ht
    cases ht

theorem Reaches.orderly (h : Reaches s t) (hs : s.Orderly) : t.Orderly := by
  induction h with
  | refl s => exact hs
  | step a h rest ih => exact ih ((moves_of_step? h).orderly hs)

/-! ## Guards and the tasks behind them -/

/-- The task holds the address. -/
def Holds (s : Threads σ ρ) (j address : Nat) : Prop :=
  ∃ v, s.shared.tasks[j]? = some v ∧ v.address = address ∧ v.Holds

/-- The task has confirmed the pin. -/
def Confirmed (s : Threads σ ρ) (j : Nat) : Prop :=
  ∃ v, s.shared.tasks[j]? = some v ∧ v.established.signal = .fired

/-- The next step of the task confirms the pin. -/
def Confirming (s : Threads σ ρ) (j : Nat) : Prop :=
  ∃ v, s.shared.tasks[j]? = some v ∧ v.phase = .confirmPin

theorem Moves.confirmed {a : Actor} {j : Nat} (h : Moves s a t) (hc : t.Confirmed j) :
    s.Confirmed j ∨ (a = .task j ∧ s.Confirming j) := by
  obtain ⟨v, hv, hf⟩ := hc
  cases h with
  | owner hw h =>
    refine .inl ?_
    rcases h.task_cases hv with hv | ⟨x, hx, rfl⟩ | ⟨_, _, _, _, -, rfl⟩
    · exact ⟨v, hv, hf⟩
    · exact ⟨x, hx, hf⟩
    · cases hf
  | @task i x x' p ns hx h =>
    rcases h.task_cases hx hv with ⟨rfl, rfl⟩ | ⟨-, hv⟩
    · rcases h.confirmed hf with hf | hp
      · exact .inl ⟨x, hx, hf⟩
      · exact .inr ⟨rfl, x, hx, hp⟩
    · exact .inl ⟨v, hv, hf⟩

/-- The next step of the task retains the address. -/
def Retaining (s : Threads σ ρ) (j address : Nat) : Prop :=
  ∃ v, s.shared.tasks[j]? = some v ∧ v.address = address ∧ v.phase = .retain

/-- A task comes to hold an address by its own step. -/
theorem Moves.holds {a : Actor} {j x : Nat} (h : Moves s a t) (hh : t.Holds j x) :
    s.Holds j x ∨ (a = .task j ∧ s.Retaining j x) := by
  obtain ⟨v, hv, hvx, hvh⟩ := hh
  cases h with
  | owner hw h =>
    refine .inl ?_
    rcases h.task_cases hv with hv | ⟨y, hy, rfl⟩ | ⟨_, _, _, _, -, rfl⟩
    · exact ⟨v, hv, hvx, hvh⟩
    · exact ⟨y, hy, hvx, hvh⟩
    · cases hvh
  | @task i y y' p ns hy h =>
    rcases h.task_cases hy hv with ⟨rfl, rfl⟩ | ⟨-, hv⟩
    · have haddress : y.address = x := h.continues.address.symm.trans hvx
      rcases h.holds hvh with hold | hp
      · exact .inl ⟨y, hy, haddress, hold⟩
      · exact .inr ⟨rfl, y, hy, haddress, hp⟩
    · exact .inl ⟨v, hv, hvx, hvh⟩

/-- A task that confirms the pin holds its address. -/
theorem Moves.confirming {j : Nat} (h : Moves s (.task j) t) (hc : s.Confirming j) :
    ∃ a, t.Holds j a := by
  obtain ⟨v, hv, hp⟩ := hc
  cases h with
  | @task i x x' p ns hx h =>
    rw [hv] at hx
    cases hx
    refine ⟨x'.address, x', h.getElem?_self hv, rfl, ?_⟩
    cases h with
    | confirmPin _ => trivial
    | _ => simp_all

theorem Orderly.armed_of_claim (hs : s.Orderly) {j : Nat} {v : Task σ} (hclaim : j ∈ s.claims)
    (hv : s.shared.tasks[j]? = some v) : v.terminate.signal = .armed := by
  obtain ⟨v', hv', harmed⟩ := hs.armed j hclaim
  rw [hv] at hv'
  cases hv'
  exact harmed

/-- A task that confirmed the pin and has yet to be told to stop waits for that. -/
theorem Orderly.await_of_claim (hs : s.Orderly) {j : Nat} {v : Task σ} (hclaim : j ∈ s.claims)
    (hv : s.shared.tasks[j]? = some v) (he : v.established.signal = .fired) :
    v.phase = .await ∧ v.terminate.signal = .armed :=
  have harmed := hs.armed_of_claim hclaim hv
  ⟨(hs.coherent j v hv).phase_eq he harmed, harmed⟩

/-- It holds its address. -/
theorem Orderly.holds_of_claim (hs : s.Orderly) {j : Nat} {v : Task σ} (hclaim : j ∈ s.claims)
    (hv : s.shared.tasks[j]? = some v) (he : v.established.signal = .fired) :
    s.Holds j v.address :=
  ⟨v, hv, rfl, (hs.coherent j v hv).holds he (hs.armed_of_claim hclaim hv)⟩

/-- What is behind a guard holds its address. -/
theorem Orderly.holds (hs : s.Orderly) {i k a : Nat} {w : Owner σ ρ} {g : Guard}
    (hw : s.owners[i]? = some w) (hg : w.guards[k]? = some g) (hback : g.Backed s.shared a) :
    ∃ j, g.task = some j ∧ s.Holds j a := by
  obtain ⟨j, v, hj, hv, rfl, he⟩ := hback
  exact ⟨j, hj, hs.holds_of_claim (mem_claims_of_guard hw hg hj) hv he⟩

/-- So does what is behind a guard that has been made just now. -/
theorem Orderly.holds_made (hs : s.Orderly) {i : Nat} {w : Owner σ ρ} {g : Guard}
    {cleanup : Action Notice σ Unit} (hw : s.owners[i]? = some w)
    (hstage : w.stage = .cleaningUp (.ok (.ok g)) cleanup) :
    ∃ j, g.task = some j ∧ s.Holds j g.address := by
  have hmade := (hs.owner i w hw).stage
  rw [hstage] at hmade
  obtain ⟨⟨j, v, hj, hv, ha, he⟩, -⟩ := hmade
  have hclaim : j ∈ s.claims := mem_claims_of_stage hw (by rw [hstage]; exact hj)
  exact ⟨j, hj, ha ▸ hs.holds_of_claim hclaim hv he⟩

end Threads

end PinnedHeap
