import PinnedHeap.Proofs.Guard.Exits
import PinnedHeap.Proofs.Guard.Sequential

/-!
# Commands with and without tasks

Carried out as blocks, with a task for every pin, commands to guards come to
what they come to in the sequential reading (`Sequential.alike_runAll`): the same
results and notices, in the same order, and the same of everything that is
shared. Between two commands the task of a guard that is not released waits for
that (`Pin.Mirrors`), and nobody asks for any other task again.
-/

namespace PinnedHeap

variable {σ ρ : Type}

/-! ## Pins and guards -/

theorem getElem?_append_of_some {α : Type} {l : List α} {k : Nat} {x : α} (hx : l[k]? = some x)
    (l' : List α) : (l ++ l')[k]? = some x := by
  rw [List.getElem?_append_left (List.getElem?_eq_some_iff.1 hx).1]
  exact hx

/-- The pin is as the guard, and if the guard has a task, that waits for the guard's release. -/
structure Pin.Mirrors (ts : List (Task σ)) (x : Pin σ) (g : Guard) : Prop where
  address : x.address = g.address
  slot : x.slot = g.slot
  bound : x.bound = g.bound
  task : ∀ j, g.task = some j → ts[j]? = some (.waiting x.thread x.address x.manager)
  held : g.address ≠ 0 → ∃ j, g.task = some j

/-- The pins are as the guards, no two of which have the same task. -/
structure Sequential.Mirrors (pins : List (Pin σ)) (guards : List Guard) (ts : List (Task σ)) :
    Prop where
  length : pins.length = guards.length
  pin : ∀ {k : Nat} {x : Pin σ} {g : Guard}, pins[k]? = some x → guards[k]? = some g →
    x.Mirrors ts g
  apart : ∀ {k l : Nat} {g g' : Guard} {j : Nat}, guards[k]? = some g → guards[l]? = some g' →
    g.task = some j → g'.task = some j → k = l

namespace Sequential.Mirrors

variable {pins : List (Pin σ)} {guards : List Guard} {ts : List (Task σ)} {k : Nat} {x : Pin σ}
  {g : Guard}

theorem nil : Mirrors (σ := σ) [] [] [] where
  length := rfl
  pin := by
    intro k x g hx
    cases hx
  apart := by
    intro k l g g' j hg
    cases hg

theorem exists_pin (h : Mirrors pins guards ts) (hg : guards[k]? = some g) :
    ∃ x, pins[k]? = some x ∧ x.Mirrors ts g := by
  have hk : k < pins.length := h.length ▸ (List.getElem?_eq_some_iff.1 hg).1
  exact ⟨pins[k], List.getElem?_eq_getElem hk, h.pin (List.getElem?_eq_getElem hk) hg⟩

theorem pin_none (h : Mirrors pins guards ts) (hg : guards[k]? = none) : pins[k]? = none :=
  List.getElem?_eq_none (h.length ▸ List.getElem?_eq_none_iff.1 hg)

theorem map_eq (h : Mirrors pins guards ts) :
    guards.map (fun g => (g.address, g.slot, g.bound)) =
      pins.map fun x => (x.address, x.slot, x.bound) := by
  apply List.ext_getElem?
  intro k
  rw [List.getElem?_map, List.getElem?_map]
  cases hg : guards[k]? with
  | none => rw [h.pin_none hg]; rfl
  | some g =>
    obtain ⟨x, hx, hmirrors⟩ := h.exists_pin hg
    rw [hx, Option.map_some, Option.map_some, hmirrors.address, hmirrors.slot, hmirrors.bound]

/-- Further tasks do not matter. -/
theorem more (h : Mirrors pins guards ts) (us : List (Task σ)) :
    Mirrors pins guards (ts ++ us) where
  length := h.length
  pin hx hg := by
    have hold := h.pin hx hg
    refine ⟨hold.address, hold.slot, hold.bound, ?_, hold.held⟩
    exact fun j hj => getElem?_append_of_some (hold.task j hj) us
  apart := h.apart

/-- A guard is made with a new task. -/
theorem keep (h : Mirrors pins guards ts) (thread : String) (a : Nat) (manager : Manager σ) :
    Mirrors (pins ++ [{ address := a, thread, manager }]) (guards ++ [.of a ts.length])
      (ts ++ [.waiting thread a manager]) where
  length := by simp [h.length]
  pin hx hg := by
    rcases getElem?_append_singleton hg with hg | ⟨rfl, rfl⟩
    · rcases getElem?_append_singleton hx with hx | ⟨rfl, -⟩
      · exact (h.more _).pin hx hg
      · rw [List.getElem?_eq_none (Nat.le_of_eq h.length.symm)] at hg
        cases hg
    · rcases getElem?_append_singleton hx with hx | ⟨-, rfl⟩
      · rw [List.getElem?_eq_none (Nat.le_of_eq h.length)] at hx
        cases hx
      · refine ⟨rfl, rfl, rfl, ?_, fun _ => ⟨_, rfl⟩⟩
        intro j hj
        cases hj
        exact List.getElem?_concat_length
  apart hg hg' hj hj' := by
    have hfresh : ∀ {k : Nat} {g : Guard}, guards[k]? = some g → g.task ≠ some ts.length := by
      intro k g hg hj
      obtain ⟨x, -, hx⟩ := h.exists_pin hg
      have hwaits := hx.task _ hj
      rw [List.getElem?_eq_none (Nat.le_refl _)] at hwaits
      cases hwaits
    rcases getElem?_append_singleton hg with hg | ⟨rfl, rfl⟩ <;>
      rcases getElem?_append_singleton hg' with hg' | ⟨rfl, rfl⟩
    · exact h.apart hg hg' hj hj'
    · cases hj'
      exact absurd hj (hfresh hg)
    · cases hj
      exact absurd hj' (hfresh hg')
    · rfl

/-- A guard that is not handed out is lost, and so is its pin. -/
theorem lose (h : Mirrors (pins ++ [x]) (guards ++ [g]) ts) : Mirrors pins guards ts where
  length := by simpa using h.length
  pin hy hz := h.pin (getElem?_append_of_some hy [x]) (getElem?_append_of_some hz [g])
  apart hy hz := h.apart (getElem?_append_of_some hy [g]) (getElem?_append_of_some hz [g])

/-- A guard and its pin are changed alike, and of the tasks at most the guard's own. -/
theorem set {us : List (Task σ)} (h : Mirrors pins guards ts) (hx : pins[k]? = some x)
    (hg : guards[k]? = some g) (x' : Pin σ) (g' : Guard) (hnew : x'.Mirrors us g')
    (htask : ∀ j, g'.task = some j → g.task = some j)
    (hts : ∀ j, g.task ≠ some j → us[j]? = ts[j]?) :
    Mirrors (pins.set k x') (guards.set k g') us where
  length := by simp [h.length]
  pin hy hz := by
    rcases getElem?_set_eq_some hg hz with ⟨rfl, rfl⟩ | ⟨hne, hz⟩
    · rw [getElem?_set_self_of_some hx] at hy
      cases hy
      exact hnew
    · rw [List.getElem?_set_ne (Ne.symm hne)] at hy
      have hold := h.pin hy hz
      refine ⟨hold.address, hold.slot, hold.bound, ?_, hold.held⟩
      intro j hj
      rw [hts j fun hown => hne (h.apart hz hg hj hown)]
      exact hold.task j hj
  apart hy hz hj hj' := by
    rcases getElem?_set_eq_some hg hy with ⟨rfl, rfl⟩ | ⟨-, hold⟩ <;>
      rcases getElem?_set_eq_some hg hz with ⟨rfl, rfl⟩ | ⟨-, hold'⟩
    · rfl
    · exact h.apart hg hold' (htask _ hj) hj'
    · exact h.apart hold hg hj (htask _ hj')
    · exact h.apart hold hold' hj hj'

/-- A guard and its pin are released. The task of the guard is the only one to go on. -/
theorem spend {j : Nat} (h : Mirrors pins guards ts) (hx : pins[k]? = some x)
    (hg : guards[k]? = some g) (hj : g.task = some j) (u : Task σ) :
    Mirrors (pins.set k { x with address := 0, slot := none }) (guards.set k g.spent)
      (ts.set j u) := by
  have hbound : x.bound = g.bound := (h.pin hx hg).bound
  refine h.set hx hg _ _ ⟨rfl, rfl, hbound, nofun, fun hne => absurd rfl hne⟩ nofun ?_
  intro i hi
  have hij : j ≠ i := fun hij => hi (hij ▸ hj)
  exact List.getElem?_set_ne hij

end Sequential.Mirrors

/-! ## Commands without tasks -/

namespace Sequential

open Mirrors

/-- Making a guard and making a pin have come to the same. -/
inductive Agree (pins : List (Pin σ)) (guards : List Guard) (ts : List (Task σ)) :
    Except Fault (Except Refusal Guard) → Except Fault (Except Refusal (Pin σ)) → Prop where
  | failed (e : Fault) (h : Mirrors pins guards ts) : Agree pins guards ts (.error e) (.error e)
  | refused (r : Refusal) (h : Mirrors pins guards ts) :
      Agree pins guards ts (.ok (.error r)) (.ok (.error r))
  | made {g : Guard} {x : Pin σ} (h : Mirrors (pins ++ [x]) (guards ++ [g]) ts)
      (hslot : g.slot = none) : Agree pins guards ts (.ok (.ok g)) (.ok (.ok x))

/-- With tasks and without them, a command has come to the same. -/
inductive Alike {α : Type} :
    Outcome Entry (Holdings σ) α → Outcome Entry (Sequential σ) α → Prop where
  | intro {a : α} {pins : List (Pin σ)} {guards : List Guard} {q : Shared σ} {ns : List Entry}
      (h : Mirrors pins guards q.tasks) : Alike ⟨.ok a, (guards, q), ns⟩ ⟨.ok a, of q pins, ns⟩

variable {pins : List (Pin σ)} {guards : List Guard} {p : Shared σ}

theorem agree_construct (owner : String) (settings : TaskSettings) (manager : Manager σ) (a : Nat)
    (h : Mirrors pins guards p.tasks) :
    ∃ made made' q ns, (Guard.establish owner settings manager a).run p = ⟨made, q, ns⟩ ∧
      (construct owner settings manager a).run (of p pins) = ⟨made', of q pins, ns⟩ ∧
      Agree pins guards q.tasks made made' := by
  have hexit := Guard.establishes owner settings manager a p
  generalize (Guard.establish owner settings manager a).run p = o at hexit
  have hrefusal : (of p pins).refusal = p.refusal := rfl
  have hmanaged : (of p pins).managed = p.managed := rfl
  cases hexit with
  | misnamed hn =>
    refine ⟨_, _, _, _, rfl, ?_, .failed _ h⟩
    simp only [construct, Action.run_bind, Action.run_require, hn, not_true_eq_false, if_false]
  | closeFails hn hr hc =>
    refine ⟨_, _, _, _, rfl, ?_, .failed _ h⟩
    simp only [construct, Action.run_bind, Action.run_require, hn, not_false_eq_true, if_true,
      Action.run_read, hrefusal, hr, run_onManaged, hmanaged, hc]
    rfl
  | refused hn hr hc =>
    refine ⟨_, _, _, _, rfl, ?_, .refused _ h⟩
    simp only [construct, Action.run_bind, Action.run_require, hn, not_false_eq_true, if_true,
      Action.run_read, hrefusal, hr, run_onManaged, hmanaged, hc]
    rfl
  | retainFails hn hr hm =>
    refine ⟨_, _, _, _, rfl, ?_, .failed _ (h.more _)⟩
    simp only [construct, Action.run_bind, Action.run_require, hn, not_false_eq_true, if_true,
      Action.run_read, hrefusal, hr, run_onManaged, hmanaged, hm]
    rfl
  | made hn hr hm =>
    refine ⟨_, _, _, _, rfl, ?_, .made (h.keep settings.name a manager) rfl⟩
    simp only [construct, Action.run_bind, Action.run_require, hn, not_false_eq_true, if_true,
      Action.run_read, hrefusal, hr, run_onManaged, hmanaged, hm]
    rfl

/-- A new guard and its pin are dropped alike, and both are lost. -/
theorem agree_drop (owner : String) {x : Pin σ} {g : Guard}
    (h : Mirrors (pins ++ [x]) (guards ++ [g]) p.tasks) (hslot : g.slot = none) :
    ∃ q ns, (Guard.drop owner g).run p = ⟨.ok (), q, ns⟩ ∧
      (drop owner x).run (of p pins) = ⟨.ok (), of q pins, ns⟩ ∧ Mirrors pins guards q.tasks := by
  have hx : (pins ++ [x])[pins.length]? = some x := List.getElem?_concat_length
  have hg : (guards ++ [g])[pins.length]? = some g := by
    rw [h.lose.length]
    exact List.getElem?_concat_length
  obtain ⟨a, xslot, xbound, thread, manager⟩ := x
  obtain ⟨rfl, -, -, htask, hheld⟩ := h.pin hx hg
  by_cases ha : g.address = 0
  · refine ⟨_, _, Guard.run_drop (Guard.run_release_again ha), ?_, h.lose⟩
    simp only [drop, ha, if_true, Action.run_pure]
  · obtain ⟨j, hj⟩ := hheld ha
    have hlost : ∀ u, Mirrors pins guards (p.tasks.set j u) := by
      intro u
      have hspent := h.spend hx hg hj u
      rw [List.set_append_right _ _ (Nat.le_refl _),
        List.set_append_right _ _ (Nat.le_of_eq h.lose.length.symm), h.lose.length,
        Nat.sub_self] at hspent
      exact hspent.lose
    have hexit := Guard.releases owner true ha hj (htask j hj)
    generalize hout : (Guard.release owner true).run (g, p) = o at hexit
    have hcells : p.cells.takeBack g.slot = p.cells := by rw [hslot]; rfl
    simp only [drop, ha, if_false]
    -- no cell is written, as the guard has no slot
    cases hexit with
    | unretainFails hm =>
      rw [hcells] at hout
      exact ⟨_, _, Guard.run_drop hout, run_giveBack_of_error hm, hlost _⟩
    | closeFails hm hc =>
      rw [hcells] at hout
      exact ⟨_, _, Guard.run_drop hout, run_giveBack_of_ok hm hc, hlost _⟩
    | released hm hc =>
      rw [hcells] at hout
      exact ⟨_, _, Guard.run_drop hout, run_giveBack_of_ok hm hc, hlost _⟩

/-- What is handed over agrees. -/
theorem agree_handOver (owner : String) {made : Except Fault (Except Refusal Guard)}
    {made' : Except Fault (Except Refusal (Pin σ))} (h : Agree pins guards p.tasks made made')
    (c : Except Fault Unit) :
    ∃ r r' q ns, (Guard.handOver owner made c).run p = ⟨r, q, ns⟩ ∧
      (handOver owner made' c).run (of p pins) = ⟨r', of q pins, ns⟩ ∧
      Agree pins guards q.tasks r r' := by
  cases c with
  | ok u =>
    refine ⟨_, _, _, _, Guard.run_handOver_ok owner made p, ?_, h⟩
    cases h <;> rfl
  | error e =>
    cases h with
    | failed _ h => exact ⟨_, _, _, _, rfl, rfl, .failed e h⟩
    | refused _ h => exact ⟨_, _, _, _, rfl, rfl, .failed e h⟩
    | made h hslot =>
      obtain ⟨q, ns, hdrop, hdrop', hlost⟩ := agree_drop owner h hslot
      refine ⟨_, _, q, ns, ?_, ?_, .failed e hlost⟩
      · rw [Guard.handOver, Action.run_bind_of_ok hdrop, Action.run_fail, List.append_nil]
      · rw [handOver, Action.run_bind_of_ok hdrop', Action.run_fail, List.append_nil]

theorem agree_constructBetween (owner : String) (settings : TaskSettings) (manager : Manager σ)
    (prepare : Action Notice σ Nat) (cleanup : Action Notice σ Unit)
    (h : Mirrors pins guards p.tasks) :
    ∃ made made' q ns,
      (Guard.establishBetween owner settings manager prepare cleanup).run p = ⟨made, q, ns⟩ ∧
      (constructBetween owner settings manager prepare cleanup).run (of p pins) =
        ⟨made', of q pins, ns⟩ ∧ Agree pins guards q.tasks made made' := by
  rcases hprepare : prepare.run p.managed with ⟨e | a, m, ls⟩
  · exact ⟨_, _, _, _, Guard.run_establishBetween_of_error hprepare,
      run_constructBetween_of_error (s := of p pins) hprepare, .failed e h⟩
  · obtain ⟨made, made', q, ns, hmade, hmade', hagree⟩ :=
      agree_construct (p := { p with managed := m }) owner settings manager a h
    rcases hclean : cleanup.run q.managed with ⟨c, m', ls'⟩
    obtain ⟨r, r', q', ns', hover, hover', hagree'⟩ :=
      agree_handOver (p := { q with managed := m' }) owner hagree c
    exact ⟨r, r', q', _, Guard.run_establishBetween hprepare hmade hclean hover,
      run_constructBetween (s := of p pins) hprepare hmade' hclean hover', hagree'⟩

theorem alike_act {owner : String} {x : Action Notice σ ρ} (h : Mirrors pins guards p.tasks) :
    Alike ((Command.run owner (.act x)).run (guards, p)) ((run owner (.act x)).run (of p pins)) :=
  .intro (q := { p with managed := (x.run p.managed).state }) h

theorem alike_pin {owner : String} {settings : TaskSettings} {manager : Manager σ}
    {prepare : Action Notice σ Nat} {cleanup : Action Notice σ Unit}
    (h : Mirrors pins guards p.tasks) :
    Alike (α := Result ρ)
      ((Command.run owner (.pin settings manager prepare cleanup)).run (guards, p))
      ((run owner (.pin settings manager prepare cleanup)).run (of p pins)) := by
  obtain ⟨made, made', q, ns, hmade, hmade', hagree⟩ :=
    agree_constructBetween owner settings manager prepare cleanup h
  simp only [Command.run, run, Action.run_bind, Action.run_attempt, Action.run_within, Place.snd,
    hmade, hmade']
  cases hagree with
  | failed _ h' => exact .intro h'
  | refused _ h' => exact .intro h'
  | @made g x h' _ =>
    have hkeep : (Holdings.keep g).run (guards, q) =
        ⟨.ok pins.length, (guards ++ [g], q), []⟩ := by
      rw [h.length]
      rfl
    have hkeep' : (keep x).run (of q pins) = ⟨.ok pins.length, of q (pins ++ [x]), []⟩ := rfl
    simp only [Action.run_bind, hkeep, hkeep', Action.run_pure]
    exact .intro h'

variable {owner : String} {k : Nat}

/-- What is done to a guard and to its pin. -/
theorem alike_onPin {x : GuardAction σ Unit} {y : Pin σ → Action Entry (Sequential σ) Unit}
    (h : Mirrors pins guards p.tasks)
    (hxy : ∀ (z : Pin σ) (g : Guard), pins[k]? = some z → guards[k]? = some g →
      z.Mirrors p.tasks g → ∃ r g' q pins' ns, x.run (g, p) = ⟨r, (g', q), ns⟩ ∧
        (y z).run (of p pins) = ⟨r, of q pins', ns⟩ ∧
        Mirrors pins' (guards.set k g') q.tasks) :
    Alike (α := Result ρ)
      ((do return Command.guardResult (← Action.attempt (Holdings.onGuard k x)) :
        Action Entry (Holdings σ) (Result ρ)).run (guards, p))
      ((onPin k y).run (of p pins)) := by
  cases hg : guards[k]? with
  | none =>
    rw [Owner.run_guardCommand_none x hg, run_onPin_none y (h.pin_none hg)]
    exact .intro h
  | some g =>
    obtain ⟨z, hz, hmirrors⟩ := h.exists_pin hg
    obtain ⟨r, g', q, pins', ns, hx, hy, h'⟩ := hxy z g hz hg hmirrors
    rw [Owner.run_guardCommand x hg hx, run_onPin y hz hy]
    exact .intro h'

theorem alike_store {slot : Slot} (h : Mirrors pins guards p.tasks) :
    Alike (α := Result ρ) ((Command.run owner (.store k slot)).run (guards, p))
      ((run owner (.store k slot)).run (of p pins)) := by
  refine alike_onPin h ?_
  rintro ⟨-, -, -, thread, manager⟩ g hz hg ⟨rfl, rfl, rfl, htask, hheld⟩
  have hsame : Mirrors pins (guards.set k g) p.tasks := by
    rw [Owner.set_self hg]
    exact h
  cases hb : g.bound with
  | true =>
    refine ⟨_, g, p, pins, _, Owner.run_store_bound hb, ?_, hsame⟩
    simp only [store, Action.run_bind, Action.run_require, Bool.true_eq_false, if_false]
  | false =>
    by_cases ha : g.address = 0
    · refine ⟨_, g, p, pins, _, Owner.run_store_released hb ha, ?_, hsame⟩
      simp only [store, Action.run_bind, Action.run_require, if_true, ha, Action.run_pure,
        List.append_nil]
    · have hr : g.isReleased = false := beq_eq_false_iff_ne.2 ha
      have hrun : (Guard.store owner slot).run (g, p) =
          ⟨.ok (), ({ g with bound := true, slot := some slot },
            { p with cells := slot.write g.address p.cells }),
            [⟨owner, .published g.address slot.address⟩]⟩ := by
        simp only [Guard.store, Guard.current, Action.run_bind, Action.run_read, Action.run_pure,
          Action.run_require, hb, if_true, hr]
        rfl
      have hstored := h.set hz hg
        { address := g.address, slot := some slot, bound := true, thread, manager }
        { g with bound := true, slot := some slot } ⟨rfl, rfl, rfl, htask, hheld⟩
        (fun j hj => hj) fun j hj => rfl
      refine ⟨_, _, _, _, _, hrun, ?_, hstored⟩
      simp only [store, Action.run_bind, Action.run_require, if_true, ha, if_false,
        Action.run_update, Action.run_note, List.nil_append]
      rfl

theorem alike_release {unwinding : Bool} (h : Mirrors pins guards p.tasks) :
    Alike (α := Result ρ) ((Command.run owner (.release k unwinding)).run (guards, p))
      ((run owner (.release k unwinding)).run (of p pins)) := by
  refine alike_onPin h ?_
  rintro ⟨-, -, -, thread, manager⟩ g hz hg ⟨rfl, rfl, rfl, htask, hheld⟩
  by_cases ha : g.address = 0
  · refine ⟨_, g, p, pins, _, Guard.run_release_again ha, ?_, ?_⟩
    · simp only [release, ha, if_true, Action.run_pure]
    · rw [Owner.set_self hg]
      exact h
  · obtain ⟨j, hj⟩ := hheld ha
    have hspent := h.spend hz hg hj
    have hexit := Guard.releases owner unwinding ha hj (htask j hj)
    generalize (Guard.release owner unwinding).run (g, p) = o at hexit
    cases hexit with
    | unretainFails hm =>
      exact ⟨_, _, _, _, _, rfl, run_release ha (run_giveBack_of_error hm), hspent _⟩
    | closeFails hm hc =>
      exact ⟨_, _, _, _, _, rfl, run_release ha (run_giveBack_of_ok hm hc), hspent _⟩
    | released hm hc =>
      exact ⟨_, _, _, _, _, rfl, run_release ha (run_giveBack_of_ok hm hc), hspent _⟩

theorem alike_run (owner : String) (c : Command σ ρ) (h : Mirrors pins guards p.tasks) :
    Alike ((Command.run owner c).run (guards, p)) ((run owner c).run (of p pins)) := by
  cases c with
  | act x => exact alike_act h
  | pin settings manager prepare cleanup => exact alike_pin h
  | store k slot => exact alike_store h
  | release k unwinding => exact alike_release h

/-- Commands that are carried out as blocks come to what they come to without tasks. -/
theorem alike_runAll (owner : String) (cs : List (Command σ ρ))
    (h : Mirrors pins guards p.tasks) :
    Alike ((Command.runAll owner cs).run (guards, p)) ((runAll owner cs).run (of p pins)) := by
  induction cs generalizing pins guards p with
  | nil => exact .intro h
  | cons c cs ih =>
    have hfirst := alike_run owner c h
    generalize hrun : (Command.run owner c).run (guards, p) = o at hfirst
    generalize hrun' : (run owner c).run (of p pins) = o' at hfirst
    cases hfirst with
    | @intro r pins' guards' q ns h' =>
      have hrest := ih h'
      generalize hall : (Command.runAll owner cs).run (guards', q) = o at hrest
      generalize hall' : (runAll owner cs).run (of q pins') = o' at hrest
      cases hrest with
      | intro h'' =>
        simp only [Command.runAll, runAll, Action.run_bind_of_ok hrun, Action.run_bind_of_ok hrun',
          Action.run_bind_of_ok hall, Action.run_bind_of_ok hall', Action.run_pure,
          List.append_nil]
        exact .intro h''

end Sequential

end PinnedHeap
