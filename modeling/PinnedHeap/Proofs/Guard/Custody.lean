import PinnedHeap.Proofs.Guard.Handshake

/-!
# Who has guards, and who waits for tasks

For every pin that was established a guard is handed out, unless it is dropped because cleaning up
has failed. A guard that was handed out is held until its address is taken out; then the release
tells its task to stop (`Threads.Dealt`). Meanwhile owners do not forget their tasks: whoever has
started one waits for it until it knows what came of the pin, and whoever has told one to stop waits
for its end (`Threads.Attended`).
-/

namespace PinnedHeap

open Event (log mem_log_of_task?)

variable {σ ρ : Type}

theorem countP_set_add {α : Type} {l : List α} {i : Nat} {x : α} (hx : l[i]? = some x)
    (q : α → Bool) (y : α) : (l.set i y).countP q + (q x).toNat = l.countP q + (q y).toNat := by
  induction l generalizing i with
  | nil => cases hx
  | cons z l ih =>
    cases i with
    | zero =>
      cases hx
      cases hx' : q x <;> cases hy : q y <;> simp [hx', hy]
    | succ i =>
      have := ih hx
      simp only [List.set_cons_succ, List.countP_cons]
      omega

theorem countP_set_of_eq {α : Type} {l : List α} {i : Nat} {x : α} (hx : l[i]? = some x)
    (q : α → Bool) (y : α) (hq : q y = q x) : (l.set i y).countP q = l.countP q :=
  Nat.add_right_cancel (hq ▸ countP_set_add hx q y)

/-! ## Guards -/

namespace Event

/-- A pin was established. -/
def isPin : Event ρ → Bool
  | constructed _ _ (.ok (.ok _)) => true
  | _ => false

/-- A task was told to stop. -/
def isStop : Event ρ → Bool
  | told _ _ _ => true
  | _ => false

/-- A task was told to stop whose guard is dropped. -/
def isDrop : Event ρ → Bool
  | told _ (.dropped _) _ => true
  | _ => false

variable {e : Event ρ}

theorem exists_task?_of_isPin (h : e.isPin = true) : ∃ j, e.task? = some j := by
  unfold isPin at h
  split at h
  · exact ⟨_, rfl⟩
  · cases h

theorem exists_task?_of_isStop (h : e.isStop = true) : ∃ j, e.task? = some j := by
  unfold isStop at h
  split at h
  · exact ⟨_, rfl⟩
  · cases h

end Event

/-- A task establishes no guards, and tells nobody to stop. -/
theorem Task.countP_events {j : Nat} {u u' : Task σ} {m : σ} (q : Event ρ → Bool)
    (hq : ∀ j r, q (.retained j r) = false ∧ q (.unretained j r) = false ∧ q (.exited j) = false) :
    (u.events j u' m).countP q = 0 := by
  apply List.countP_eq_zero.2
  intro e he
  rcases Task.mem_events he with ⟨r, rfl⟩ | ⟨r, rfl⟩ | rfl
  · simp [(hq j r).1]
  · simp [(hq j r).2.1]
  · simp [(hq j (.ok ())).2.2]

/-- Is the guard held? -/
def Guard.isHeld (g : Guard) : Bool := !g.isReleased

theorem Guard.isHeld_of_ne_zero {g : Guard} (ha : g.address ≠ 0) : g.isHeld = true := by
  simp [isHeld, isReleased, ha]

@[simp] theorem Guard.isHeld_zero (g : Guard) : Guard.isHeld { g with address := 0 } = false := rfl

/-- Does the owner know of a pin, and has neither handed out a guard of it nor dropped it? -/
def Stage.isPinned : Stage σ → Bool
  | .cleaningUp (.ok (.ok _)) _ => true
  | .dropping _ _ => true
  | _ => false

theorem Stage.isPinned_cleaningUp {made : Except Fault (Except Refusal Guard)}
    {cleanup : Action Notice σ Unit} (hm : ∀ g, made ≠ .ok (.ok g)) :
    (cleaningUp made cleanup).isPinned = false := by
  rcases made with e | refusal | g
  · rfl
  · rfl
  · exact absurd rfl (hm g)

namespace Threads

/-- All guards that were handed out. -/
def guards (s : Threads σ ρ) : List Guard := s.owners.flatMap Owner.guards

/-- How many guards are held: handed out, and not released. -/
def held (s : Threads σ ρ) : Nat := s.guards.countP Guard.isHeld

/-- How many guards were made that are still to be handed out, or to be dropped. -/
def unclaimed (s : Threads σ ρ) : Nat := s.owners.countP fun w => w.stage.isPinned

/-- How many owners are in the middle of a command. -/
def busy (s : Threads σ ρ) : Nat := s.owners.countP fun w => !w.stage.isIdle

end Threads

namespace Owner

variable {w w' : Owner σ ρ} {p p' : Shared σ}

/-- A guard is handed out as a guard that is held. It is held until its address is taken out, and
then its task is told to stop. -/
theorem Steps.released (h : Steps w p w' p') (hw : w.Orderly p) (hn : w.NonNull) (i : Nat) :
    w'.guards.length + (w.events i w').countP Event.isDrop +
        (w.guards.countP Guard.isHeld + w.stage.unpins?.isSome.toNat) =
      w.guards.length + (w'.guards.countP Guard.isHeld + w'.stage.unpins?.isSome.toNat) +
        (w.events i w').countP Event.isStop := by
  have hstage := hn.stage
  cases h with
  | @store k slot program g hs hp hg hb ha =>
    have hset := countP_set_of_eq hg Guard.isHeld { g with bound := true, slot := some slot } rfl
    simp [Owner.events, finish, hs, hp, Stage.unpins?, hset]
  | @release k unwinding program g hs hp hg ha =>
    have hset : (w.guards.set k { g with address := 0 }).countP Guard.isHeld + 1 =
        w.guards.countP Guard.isHeld := by
      simpa [Guard.isHeld_of_ne_zero ha] using countP_set_add hg Guard.isHeld { g with address := 0 }
    simp [Owner.events, goTo, hs, Stage.unpins?, ← hset]
  | @clear k a unwinding g slot hs hg hslot =>
    have hset := countP_set_of_eq hg Guard.isHeld { g with slot := none } rfl
    simp [Owner.events, goTo, hs, Stage.unpins?, hset]
  | @tell k a unwinding g j hs hg ht =>
    have hset := countP_set_of_eq hg Guard.isHeld { g with task := none } rfl
    simp [Owner.events, goTo, hs, Stage.unpins?, hset, Event.isStop, Event.isDrop, Nat.add_assoc]
  | made hs hc =>
    rw [hs] at hstage
    have hmade := Guard.isHeld_of_ne_zero hstage
    simp [Owner.events, finish, hs, Stage.unpins?, hmade, Nat.add_assoc, Nat.add_comm 1]
  | clearNone hs hg => exact absurd (.inl hg) (hw.not_lost (.inl hs))
  | tellNone hs hg => exact absurd (.inl hg) (hw.not_lost (.inr hs))
  | tellNobody hs hg ht => exact absurd (.inr ⟨_, hg, ht⟩) (hw.not_lost (.inr hs))
  | drop hs ha ht =>
    simp [Owner.events, goTo, hs, Stage.unpins?, Event.isStop, Event.isDrop, Nat.add_right_comm]
  | _ =>
    simp [Owner.events, goTo, finish, Stage.unpins?, Event.isStop, Event.isDrop, Guard.isReleased, *]

/-- For every pin that is established a guard is handed out or dropped. -/
theorem Steps.handed (h : Steps w p w' p') (hw : w.Orderly p) (hn : w.NonNull) (i : Nat) :
    w'.guards.length + w'.stage.isPinned.toNat + (w.events i w').countP Event.isDrop =
      w.guards.length + w.stage.isPinned.toNat + (w.events i w').countP Event.isPin := by
  have hstage := hn.stage
  cases h with
  | passPin hs ht hf => simp [Owner.events, goTo, hs, Stage.isPinned, Event.isPin, Event.isDrop]
  | made hs hc => simp [Owner.events, finish, hs, Stage.isPinned]
  | cleanUpDrops hs he => simp [Owner.events, goTo, hs, Stage.isPinned]
  | drop hs ha ht => simp [Owner.events, goTo, hs, Stage.isPinned, Event.isPin, Event.isDrop]
  | dropReleased hs ha =>
    rw [hs] at hstage
    exact absurd ha hstage
  | dropNobody hs ha ht => exact absurd ht ((Owner.Stops.dropped hs).task_ne_none hw)
  | cleanUpFails hs hm he =>
    simp only [Owner.events, finish, hs, Stage.isPinned_cleaningUp hm, List.countP_nil]
    rfl
  | clearNone hs hg => exact absurd (.inl hg) (hw.not_lost (.inl hs))
  | tellNone hs hg => exact absurd (.inl hg) (hw.not_lost (.inr hs))
  | tellNobody hs hg ht => exact absurd (.inr ⟨_, hg, ht⟩) (hw.not_lost (.inr hs))
  | _ =>
    simp [Owner.events, goTo, finish, Stage.isPinned, Event.isPin, Event.isDrop, Guard.isReleased, *]

end Owner

namespace Threads

variable {s s₀ t : Threads σ ρ} {es fs : List (Event ρ)}

/-- The guards that were handed out are held, being released, or released. For every pin that was
established there is one of them, or there will be, unless it was dropped. -/
structure Dealt (es : List (Event ρ)) (s : Threads σ ρ) : Prop where
  released : s.guards.length + es.countP Event.isDrop =
    s.held + s.owners.countP (fun w => w.stage.unpins?.isSome) + es.countP Event.isStop
  handed : s.guards.length + s.unclaimed + es.countP Event.isDrop = es.countP Event.isPin

theorem Moves.dealt {a : Actor} (h : Moves s a t) (hs : s.Orderly) (hn : s.NonNull)
    (hd : s.Dealt es) : t.Dealt (es ++ s.events a t) := by
  cases a with
  | owner i =>
    obtain ⟨w, w', hw, hstep, howners, hevents⟩ := h.owner_events
    -- the guards of the one owner are replaced among all guards
    obtain ⟨rest, hbefore, hafter⟩ := flatMap_set Owner.guards hw
    have hguards : s.guards.Perm (w.guards ++ rest) := hbefore
    have hguards' : t.guards.Perm (w'.guards ++ rest) := by
      rw [guards, howners]
      exact hafter w'
    have hreleased := hstep.released (hs.owner i w hw) (hn w (List.mem_of_getElem? hw)) i
    have hhanded := hstep.handed (hs.owner i w hw) (hn w (List.mem_of_getElem? hw)) i
    have hunpins := countP_set_add hw (fun w => w.stage.unpins?.isSome) w'
    have hpinned := countP_set_add hw (fun w => w.stage.isPinned) w'
    rw [← howners] at hunpins hpinned
    have hold := hd.released
    have hold' := hd.handed
    rw [held, hguards.length_eq, hguards.countP_eq, List.length_append, List.countP_append] at hold
    rw [unclaimed, hguards.length_eq, List.length_append] at hold'
    rw [hevents]
    refine ⟨?_, ?_⟩
    · rw [held, hguards'.length_eq, hguards'.countP_eq, List.length_append, List.countP_append,
        List.countP_append, List.countP_append]
      omega
    · rw [unclaimed, hguards'.length_eq, List.length_append, List.countP_append,
        List.countP_append]
      omega
  | task j =>
    obtain ⟨v, v', p, hv, hstep, hshared, howners, hevents⟩ := h.task_events
    have hheld : t.held = s.held := by rw [held, held, guards, guards, howners]
    have hdrops : (v.events (ρ := ρ) j v' s.shared.managed).countP Event.isDrop = 0 :=
      Task.countP_events Event.isDrop fun _ _ => ⟨rfl, rfl, rfl⟩
    rw [hevents]
    refine ⟨?_, ?_⟩
    · rw [hheld, guards, howners, List.countP_append, List.countP_append, hdrops,
        Task.countP_events Event.isStop fun _ _ => ⟨rfl, rfl, rfl⟩]
      exact hd.released
    · rw [guards, unclaimed, howners, List.countP_append, List.countP_append, hdrops,
        Task.countP_events Event.isPin fun _ _ => ⟨rfl, rfl, rfl⟩]
      exact hd.handed

theorem Fresh.dealt (h₀ : s₀.Fresh) : s₀.Dealt (ρ := ρ) [] := by
  have hidle : ∀ w ∈ s₀.owners, w.guards = [] ∧ w.stage = .idle := by
    intro w hw
    obtain ⟨i, hi⟩ := List.mem_iff_getElem?.1 hw
    exact h₀.owner i w hi
  have hguards : s₀.guards = [] := List.flatMap_eq_nil_iff.2 fun w hw => (hidle w hw).1
  have hnone : ∀ q : Stage σ → Bool, q .idle = false →
      s₀.owners.countP (fun w => q w.stage) = 0 := by
    intro q hq
    apply List.countP_eq_zero.2
    intro w hw
    rw [(hidle w hw).2, hq]
    exact Bool.false_ne_true
  refine ⟨?_, ?_⟩
  · rw [held, hguards, hnone (fun stage => stage.unpins?.isSome) rfl]
    rfl
  · rw [hguards, unclaimed, hnone Stage.isPinned rfl]
    rfl

theorem Traces.dealt (h : Traces s₀ es t) (h₀ : s₀.Fresh) (hn : s₀.NonNull) : t.Dealt es := by
  have hboth : t.NonNull ∧ t.Dealt es := by
    induction h with
    | refl => exact ⟨hn, h₀.dealt⟩
    | step a h ha ih =>
      have hmoves := moves_of_step? ha
      exact ⟨hmoves.nonNull ih.1, hmoves.dealt (h.reaches.orderly h₀.orderly) ih.1 ih.2⟩
  exact hboth.2

end Threads

/-! ## Whom a task concerns -/

/-- The task whose pin the owner waits for. -/
def Stage.awaits? : Stage σ → Option Nat
  | .awaitingPin j _ _ => some j
  | .joiningFailed j _ _ => some j
  | _ => none

theorem Stage.waitsFor?_of_awaits? {stage : Stage σ} {j : Nat} (h : stage.awaits? = some j) :
    stage.waitsFor? = some j := by
  cases stage <;> simp_all [awaits?, waitsFor?]

theorem Stage.waitsFor?_of_leaves? {stage : Stage σ} {j : Nat} {cause : Cause}
    (h : stage.leaves? = some (j, cause)) : stage.waitsFor? = some j := by
  cases stage <;> simp_all [leaves?, waitsFor?]

/-- An owner is in the middle of one thing at a time. -/
theorem Stage.occupied_le (stage : Stage σ) :
    (if stage.waitsFor?.isSome = true then 1 else 0) +
      (if stage.unpins?.isSome = true then 1 else 0) +
      (if stage.isPinned = true then 1 else 0) ≤
      if (!stage.isIdle) = true then 1 else 0 := by
  cases stage with
  | cleaningUp made cleanup =>
    generalize (cleaningUp made cleanup).isPinned = pinned
    cases pinned <;> simp [waitsFor?, unpins?, isIdle]
  | _ => simp [waitsFor?, unpins?, isPinned, isIdle]

/-- An owner waits for a pin until it knows what came of it. -/
theorem Owner.Steps.awaits {w w' : Owner σ ρ} {p p' : Shared σ} (h : Owner.Steps w p w' p')
    (i : Nat) {j : Nat} (hj : w.stage.awaits? = some j) :
    w'.stage.awaits? = some j ∨ ∃ made, .constructed i j made ∈ w.events i w' := by
  cases h with
  | passPin hs ht hf =>
    rw [hs] at hj
    cases hj
    simp [Owner.events, goTo, hs]
  | missPin hs ht =>
    rw [hs] at hj
    exact .inl hj
  | joinFailed hs he =>
    rw [hs] at hj
    cases hj
    simp [Owner.events, goTo, hs]
  | _ => simp_all [Stage.awaits?]

/-- Somebody has yet to learn what came of the pin, or has yet to end its release. -/
def Event.IsPending (j : Nat) (es : List (Event ρ)) : Prop :=
  (∃ i, .launched i j ∈ es ∧ ∀ o made, .constructed o j made ∉ es) ∨
    ∃ i cause, .told i cause j ∈ es ∧ ∀ o c r, .released o j c r ∉ es

namespace Threads

variable {s s₀ t : Threads σ ρ} {es fs : List (Event ρ)}

/-- Whoever takes a step, an owner is left alone, or the step is its own. -/
theorem Moves.left_or_own {a : Actor} (h : Moves s a t) {i : Nat} {w : Owner σ ρ}
    (hw : s.owners[i]? = some w) :
    ∃ x, t.owners[i]? = some x ∧
      (x = w ∨ Owner.Steps w s.shared x t.shared ∧ s.events a t = w.events i x) := by
  cases a with
  | owner l =>
    obtain ⟨v, v', hv, hstep, howners, hevents⟩ := h.owner_events
    by_cases hl : l = i
    · subst hl
      rw [hw] at hv
      cases hv
      exact ⟨v', howners ▸ getElem?_set_self_of_some hw v', .inr ⟨hstep, hevents⟩⟩
    · exact ⟨w, by rw [howners, List.getElem?_set_ne hl, hw], .inl rfl⟩
  | task j =>
    obtain ⟨v, v', p, -, -, -, howners, -⟩ := h.task_events
    exact ⟨w, howners ▸ hw, .inl rfl⟩

/-- What happens in a step is what owners do about tasks, or it is between a task and its
manager. -/
theorem Moves.mem_events {a : Actor} (h : Moves s a t) (hs : s.Orderly) {e : Event ρ}
    (he : e ∈ s.events a t) :
    (∃ i w x, t.owners[i]? = some x ∧ Owner.Marks i w s.shared x t.shared (s.events a t)) ∨
      ∃ j, (∃ r, e = .retained j r) ∨ (∃ r, e = .unretained j r) ∨ e = .exited j := by
  cases a with
  | owner i =>
    obtain ⟨w, x, hw, hstep, howners, hevents⟩ := h.owner_events
    refine .inl ⟨i, w, x, howners ▸ getElem?_set_self_of_some hw x, ?_⟩
    rw [hevents]
    exact hstep.marks (hs.owner i w hw) i
  | task j =>
    obtain ⟨v, v', p, -, -, -, -, hevents⟩ := h.task_events
    rw [hevents] at he
    exact .inr ⟨j, Task.mem_events he⟩

/-- Owners wait for the tasks that they have started and for those that they have told to stop. -/
structure Attended (es : List (Event ρ)) (s : Threads σ ρ) : Prop where
  launched : ∀ i j, .launched i j ∈ es → (∃ made, .constructed i j made ∈ es) ∨
    ∃ w, s.owners[i]? = some w ∧ w.stage.awaits? = some j
  told : ∀ i cause j, .told i cause j ∈ es → (∃ r, .released i j cause r ∈ es) ∨
    ∃ w, s.owners[i]? = some w ∧ w.stage.leaves? = some (j, cause)

theorem Moves.attended {a : Actor} (h : Moves s a t) (hs : s.Orderly) (ha : s.Attended es) :
    t.Attended (es ++ s.events a t) := by
  constructor
  case launched =>
    intro i j hmem
    rcases List.mem_append.1 hmem with hmem | hmem
    · rcases ha.launched i j hmem with ⟨made, hmade⟩ | ⟨w, hw, hj⟩
      · exact .inl ⟨made, List.mem_append_left _ hmade⟩
      obtain ⟨x, hx, rfl | ⟨hstep, hevents⟩⟩ := h.left_or_own hw
      · exact .inr ⟨x, hx, hj⟩
      · rw [hevents]
        refine (hstep.awaits i hj).symm.imp ?_ fun hj => ⟨x, hx, hj⟩
        rintro ⟨made, hmade⟩
        exact ⟨made, List.mem_append_right es hmade⟩
    · rcases h.mem_events hs hmem with ⟨l, w, x, hx, hmarks⟩ | ⟨l, ⟨r, he⟩ | ⟨r, he⟩ | he⟩
      · generalize s.events a t = fs at hmarks hmem
        cases hmarks with
        | launched hs' hp hu ht hunwound =>
          cases List.mem_singleton.1 hmem
          exact .inr ⟨x, hx, by rw [hs']; rfl⟩
        | _ => simp at hmem
      all_goals cases he
  case told =>
    intro i cause j hmem
    rcases List.mem_append.1 hmem with hmem | hmem
    · rcases ha.told i cause j hmem with ⟨r, hdone⟩ | ⟨w, hw, hj⟩
      · exact .inl ⟨r, List.mem_append_left _ hdone⟩
      obtain ⟨x, hx, rfl | ⟨hstep, hevents⟩⟩ := h.left_or_own hw
      · exact .inr ⟨x, hx, hj⟩
      · rw [hevents]
        refine (hstep.leaves i hj).symm.imp ?_ fun hj => ⟨x, hx, hj⟩
        rintro ⟨r, hdone⟩
        exact ⟨r, List.mem_append_right es hdone⟩
    · rcases h.mem_events hs hmem with ⟨l, w, x, hx, hmarks⟩ | ⟨l, ⟨r, he⟩ | ⟨r, he⟩ | he⟩
      · generalize s.events a t = fs at hmarks hmem
        cases hmarks with
        | told hg ht hs' hp =>
          cases List.mem_singleton.1 hmem
          exact .inr ⟨x, hx, by rw [hs']; rfl⟩
        | _ => simp at hmem
      all_goals cases he

theorem Traces.attended (h : Traces s₀ es t) (h₀ : s₀.Fresh) : t.Attended es := by
  induction h with
  | refl =>
    refine ⟨?_, ?_⟩
    · intro i j hmem
      cases hmem
    · intro i cause j hmem
      cases hmem
  | step a h ha ih => exact (moves_of_step? ha).attended (h.reaches.orderly h₀.orderly) ih

/-- The tasks that owners wait for. -/
def waitedFor (s : Threads σ ρ) : List Nat := s.owners.filterMap fun w => w.stage.waitsFor?

/-- Whoever a pin is pending for waits for its task. -/
theorem Attended.mem_waitedFor (ha : s.Attended es) {j : Nat}
    (hj : Event.IsPending j (log es j)) : j ∈ s.waitedFor := by
  rcases hj with ⟨i, hi, hnew⟩ | ⟨i, cause, htold, hnew⟩
  · rcases ha.launched i j ((mem_log_of_task? rfl).1 hi) with ⟨made, hmade⟩ | ⟨w, hw, hj⟩
    · exact absurd ((mem_log_of_task? rfl).2 hmade) (hnew i made)
    · exact List.mem_filterMap.2
        ⟨w, List.mem_of_getElem? hw, Stage.waitsFor?_of_awaits? hj⟩
  · rcases ha.told i cause j ((mem_log_of_task? rfl).1 htold) with ⟨r, hdone⟩ | ⟨w, hw, hj⟩
    · exact absurd ((mem_log_of_task? rfl).2 hdone) (hnew i cause r)
    · exact List.mem_filterMap.2
        ⟨w, List.mem_of_getElem? hw, Stage.waitsFor?_of_leaves? hj⟩

/-- Owners that wait, owners that are about to tell a task to stop, and owners that have a guard
to hand out or to drop are in the middle of a command. -/
theorem occupied_le_busy (s : Threads σ ρ) :
    s.waitedFor.length + s.owners.countP (fun w => w.stage.unpins?.isSome) + s.unclaimed ≤
      s.busy := by
  rw [waitedFor, List.length_filterMap_eq_countP, busy, unclaimed]
  induction s.owners with
  | nil => exact Nat.le_refl 0
  | cons w owners ih =>
    have hstage := w.stage.occupied_le
    simp only [List.countP_cons]
    omega

end Threads

end PinnedHeap
