import PinnedHeap.Guard.Session
import PinnedHeap.Proofs.Guard.Protocol
import PinnedHeap.Proofs.Heap.Standstill

/-!
# What a session does to its heap

Owners and tasks act on the heap through their requests and through the manager
that they were given. `Session.Wired` says that this is the heap itself; then
every move of a session leaves the heap alone or is one call, and the addresses
that tasks hold change only with the calls that retain them and give them back.
-/

namespace PinnedHeap

open Heap (Call Answer)

/-! ## What is held -/

section

variable {σ ρ : Type}

/-- The address that a task holds, if it does. -/
def Task.held (t : Task σ) : List Nat := if t.Holds then [t.address] else []

/-- The addresses that are held. -/
def Shared.held (p : Shared σ) : List Nat := p.tasks.flatMap Task.held

theorem Threads.Holds.mem_held {s : Threads σ ρ} {j a : Nat} (h : s.Holds j a) :
    a ∈ s.shared.held := by
  obtain ⟨t, ht, rfl, hholds⟩ := h
  refine List.mem_flatMap.2 ⟨t, List.mem_of_getElem? ht, ?_⟩
  rw [Task.held, if_pos hholds]
  exact List.mem_singleton_self _

theorem Shared.held_modifyTask {p : Shared σ} {i : Nat} {u : Task σ} (hu : p.tasks[i]? = some u)
    (f : Task σ → Task σ) :
    ∃ rest, p.held.Perm (u.held ++ rest) ∧ (p.modifyTask i f).held.Perm ((f u).held ++ rest) := by
  obtain ⟨rest, hbefore, hafter⟩ := flatMap_set Task.held hu
  refine ⟨rest, hbefore, ?_⟩
  have htasks : (p.modifyTask i f).tasks = p.tasks.set i (f u) := by
    simp [modifyTask, List.modify_eq_set_getElem?, hu]
  rw [held, htasks]
  exact hafter (f u)

/-- Being told to stop, a task holds what it held. -/
theorem Shared.held_tellTask (p : Shared σ) (i : Nat) : (p.tellTask i).held.Perm p.held := by
  rw [tellTask]
  cases hi : p.tasks[i]? with
  | none =>
    have htasks : (p.modifyTask i fun t => { t with terminate := t.terminate.fire }).tasks =
        p.tasks := by simp [modifyTask, List.modify_eq_set_getElem?, hi]
    rw [held, htasks]
    exact List.Perm.refl _
  | some u =>
    obtain ⟨rest, hbefore, hafter⟩ := held_modifyTask hi fun t =>
      { t with terminate := t.terminate.fire }
    exact hafter.trans hbefore.symm

/-- Owners retain nothing and give nothing back. -/
theorem Owner.Steps.held {w w' : Owner σ ρ} {p p' : Shared σ} (h : Owner.Steps w p w' p') :
    p'.held.Perm p.held := by
  cases h with
  | launch hs hr =>
    show (List.flatMap Task.held (p.tasks ++ [_])).Perm _
    rw [List.flatMap_append]
    exact List.Perm.of_eq (List.append_nil _)
  | drop hs ha ht => exact p.held_tellTask _
  | tell hs hg ht => exact p.held_tellTask _
  | _ => exact List.Perm.refl _

end

/-! ## Owners -/

/-- What an owner does last about a pin: at most, it allows collections again. -/
def Tidies (cleanup : Action Notice Heap Unit) : Prop :=
  cleanup = pure () ∨ cleanup = Action.within .whole Heap.allow

/-- What the owner is in the middle of acts on the heap. -/
def Stage.Wired : Stage Heap → Prop
  | .launching _ manager _ cleanup => manager = .heap .whole ∧ Tidies cleanup
  | .awaitingPin _ _ cleanup => Tidies cleanup
  | .joiningFailed _ _ cleanup => Tidies cleanup
  | .cleaningUp _ cleanup => Tidies cleanup
  | _ => True

/-- The owner does what it was asked for, and to the heap. -/
structure Owner.Wired (w : Owner Heap Answer) : Prop where
  program : ∀ c ∈ w.program, ∃ r : Request, c = r.command
  stage : w.stage.Wired

/-- What a step of an owner does to the heap: nothing, or one call. -/
inductive Owner.Touches (w : Owner Heap Answer) (h : Heap) : Heap → Prop where
  | nothing : Touches w h h
  | called {c : Call} (hc : (Request.call c).command ∈ w.program) : Touches w h (c.run.run h).state
  | inhibited {id : Nat} : Touches w h ((Call.inhibit id).run.run h).state
  | allowed : Touches w h (Call.allow.run.run h).state

namespace Owner

variable {w w' : Owner Heap Answer} {p p' : Shared Heap}

theorem Wired.pin (hw : w.Wired) {settings : TaskSettings} {manager : Manager Heap}
    {prepare : Action Notice Heap Nat} {cleanup : Action Notice Heap Unit}
    {program : List (Command Heap Answer)}
    (hp : w.program = .pin settings manager prepare cleanup :: program) :
    manager = .heap .whole ∧ Tidies cleanup ∧
      ((∃ a, prepare = pure a) ∨ ∃ id, prepare = Action.within .whole (Heap.capture id)) := by
  obtain ⟨r, hr⟩ := hw.program _ (hp ▸ List.mem_cons_self)
  cases r with
  | pin id settings =>
    cases hr
    exact ⟨rfl, .inr rfl, .inr ⟨id, rfl⟩⟩
  | guard a settings =>
    cases hr
    exact ⟨rfl, .inl rfl, .inl ⟨a, rfl⟩⟩
  | _ => cases hr

theorem Steps.stage_wired (h : Steps w p w' p') (hw : w.Wired) : w'.stage.Wired := by
  have hstage := hw.stage
  cases h with
  | prepare hs hp ha => exact ⟨(hw.pin hp).1, (hw.pin hp).2.1⟩
  | launchFails hs hn =>
    rw [hs] at hstage
    exact hstage.2
  | launchRefused hs hr hc =>
    rw [hs] at hstage
    exact hstage.2
  | launchCloseFails hs hr hc =>
    rw [hs] at hstage
    exact hstage.2
  | launch hs hr =>
    rw [hs] at hstage
    exact hstage.2
  | passPin hs ht hf =>
    rw [hs] at hstage
    exact hstage
  | missPin hs ht =>
    rw [hs] at hstage
    exact hstage
  | joinFailed hs he =>
    rw [hs] at hstage
    exact hstage
  | _ => trivial

theorem Steps.wired (h : Steps w p w' p') (hw : w.Wired) : w'.Wired where
  program c hc := hw.program c (h.program hc)
  stage := h.stage_wired hw

theorem touches_prepare {prepare : Action Notice Heap Nat} (h : Heap)
    (hp : (∃ a, prepare = pure a) ∨ ∃ id, prepare = Action.within .whole (Heap.capture id)) :
    Touches w h (prepare.run h).state := by
  rcases hp with ⟨a, rfl⟩ | ⟨id, rfl⟩
  · exact .nothing
  · have hrun : ((Call.inhibit id).run.run h).state = ((Heap.inhibit id).run h).state := by
      rw [Call.run, Heap.run_return]
    show Touches w h ((Heap.capture id).run h).state
    rcases Heap.run_capture_cases h id with hcapture | ⟨-, hcapture⟩
    · rw [hcapture, ← hrun]
      exact .inhibited
    · rw [hcapture]
      exact .nothing

theorem touches_cleanup {cleanup : Action Notice Heap Unit} (h : Heap) (hc : Tidies cleanup) :
    Touches w h (cleanup.run h).state := by
  rcases hc with rfl | rfl
  · exact .nothing
  · have hrun : (Call.allow.run.run h).state = (Heap.allow.run h).state := by
      rw [Call.run, Heap.run_return]
    show Touches w h (Heap.allow.run h).state
    rw [← hrun]
    exact .allowed

theorem Steps.touches (h : Steps w p w' p') (hw : w.Wired) :
    Touches w p.managed p'.managed := by
  have hstage := hw.stage
  cases h with
  | @act x program hs hp =>
    obtain ⟨r, hr⟩ := hw.program _ (hp ▸ List.mem_cons_self)
    cases r with
    | call c =>
      cases hr
      exact .called (c := c) (hp ▸ List.mem_cons_self)
    | _ => cases hr
  | prepareFails hs hp he => exact touches_prepare _ (hw.pin hp).2.2
  | prepare hs hp ha => exact touches_prepare _ (hw.pin hp).2.2
  | launchRefused hs hr hc =>
    rw [hs] at hstage
    rw [hstage.1]
    exact .nothing
  | launchCloseFails hs hr hc =>
    rw [hs] at hstage
    rw [hstage.1]
    exact .nothing
  | cleanUpFails hs hm he =>
    rw [hs] at hstage
    exact touches_cleanup _ hstage
  | cleanUpDrops hs he =>
    rw [hs] at hstage
    exact touches_cleanup _ hstage
  | notMade hs hc =>
    rw [hs] at hstage
    exact touches_cleanup _ hstage
  | refused hs hc =>
    rw [hs] at hstage
    exact touches_cleanup _ hstage
  | made hs hc =>
    rw [hs] at hstage
    exact touches_cleanup _ hstage
  | _ => exact .nothing

/-- A call that an owner is asked for is answered at once. -/
theorem Steps.act_eq {x : Action Notice Heap Answer} {program : List (Command Heap Answer)}
    (h : Steps w p w' p') (hs : w.stage = .idle) (hp : w.program = .act x :: program) :
    w'.results = w.results ++ [.ofExcept .answer (x.run p.managed).answer] ∧
      p'.managed = (x.run p.managed).state := by
  cases h with
  | act hs' hp' =>
    rw [hp] at hp'
    cases hp'
    exact ⟨rfl, rfl⟩
  | _ => simp_all

end Owner

/-! ## Tasks -/

/-- A call in the service of guards, between what tasks hold before and after it. -/
inductive Serves (held held' : List Nat) : Call → Except Fault Answer → Prop where
  | inhibit {id : Nat} {r : Except Fault Answer} (hp : held'.Perm held) :
      Serves held held' (.inhibit id) r
  | allow {r : Except Fault Answer} (hp : held'.Perm held) : Serves held held' .allow r
  | retain {a : Nat} {x : Answer} (hp : held'.Perm (a :: held)) :
      Serves held held' (.retain a) (.ok x)
  | retainFails {a : Nat} {e : Fault} (hp : held'.Perm held) :
      Serves held held' (.retain a) (.error e)
  | unretain {a : Nat} {r : Except Fault Answer} (hp : held.Perm (a :: held')) :
      Serves held held' (.unretain a) r

section

variable {held held' : List Nat} {c : Call} {r : Except Fault Answer}

theorem Serves.admissible (hc : Serves held held' c r) (h : Heap) : c.Admissible h := by
  cases hc <;> trivial

/-- What is called in the service of guards gives nothing up and writes nothing. -/
theorem Serves.unroots (hc : Serves held held' c r) (id : Nat) : c.unroots id = false := by
  cases hc <;> rfl

theorem Serves.edit (hc : Serves held held' c r) (id : Nat) (o : Object) (content : List UInt8) :
    c.edit id o content = content := by
  cases hc <;> rfl

theorem Serves.edit_exchange (hc : Serves held held' c r) (h : Heap) (id : Nat)
    (content : List UInt8) : (h.exchange c).edit id content = content := by
  cases hc <;> rfl

end

/-- The call that the next step of a task makes for its address, and the phase that the task
is in if the call is answered. -/
def Task.due? (u : Task Heap) : Option (Call × Phase) :=
  match u.phase with
  | .retain => some (.retain u.address, .countIn)
  | .unretain => some (.unretain u.address, .countOut)
  | _ => none

namespace Task.Steps

variable {u u' : Task Heap} {p p' : Shared Heap}

theorem due (h : Steps u p u' p') (hm : u.manager = .heap .whole) {c : Call} {next : Phase}
    (hd : u.due? = some (c, next)) :
    p'.managed = (c.run.run p.managed).state ∧
      u' = u.after next ((c.run.run p.managed).answer.map fun _ => ()) := by
  have hretain : (Call.retain u.address).run.run p.managed = _ :=
    Heap.run_return (fun _ => .done) (Heap.retain u.address) p.managed
  have hunretain : (Call.unretain u.address).run.run p.managed = _ :=
    Heap.run_return (fun _ => .done) (Heap.unretain u.address) p.managed
  have hmretain : (u.manager.retain u.thread u.address).run p.managed =
      (Heap.retain u.address).run p.managed := by
    rw [hm]
    rfl
  have hmunretain : (u.manager.unretain u.thread u.address).run p.managed =
      (Heap.unretain u.address).run p.managed := by
    rw [hm]
    rfl
  unfold due? at hd
  cases h with
  | retain hp ha =>
    rw [hp] at hd
    cases hd
    rw [hmretain] at ha ⊢
    rw [hretain, ha]
    exact ⟨rfl, rfl⟩
  | retainFails hp he =>
    rw [hp] at hd
    cases hd
    rw [hmretain] at he ⊢
    rw [hretain, he]
    exact ⟨rfl, rfl⟩
  | unretain hp ha =>
    rw [hp] at hd
    cases hd
    rw [hmunretain] at ha ⊢
    rw [hunretain, ha]
    exact ⟨rfl, rfl⟩
  | unretainFails hp he =>
    rw [hp] at hd
    cases hd
    rw [hmunretain] at he ⊢
    rw [hunretain, he]
    exact ⟨rfl, rfl⟩
  | _ => simp_all

theorem managed_of_not_due (h : Steps u p u' p') (hm : u.manager = .heap .whole)
    (hd : u.due? = none) : p'.managed = p.managed := by
  unfold due? at hd
  cases h with
  | close hp ha =>
    rw [hm]
    rfl
  | closeFails hp he =>
    rw [hm]
    rfl
  | _ => simp_all

theorem held_of_not_due (h : Steps u p u' p') (hd : u.due? = none) : u'.held = u.held := by
  unfold due? at hd
  cases h with
  | loseTerminate hp hs => simp [held, Holds, hp]
  | _ => simp_all [held, Holds, failed]

/-- What a step of a task does to the heap: nothing, or one call for its address. -/
theorem touches (h : Steps u p u' p') (hm : u.manager = .heap .whole) :
    (p'.managed = p.managed ∧ u'.held = u.held) ∨
      ∃ c : Call, p'.managed = (c.run.run p.managed).state ∧
        ∀ {held held' rest : List Nat}, held.Perm (u.held ++ rest) → held'.Perm (u'.held ++ rest) →
          Serves held held' c (c.run.run p.managed).answer := by
  cases hd : u.due? with
  | none => exact .inl ⟨h.managed_of_not_due hm hd, h.held_of_not_due hd⟩
  | some due =>
    obtain ⟨c, next⟩ := due
    obtain ⟨hmanaged, hnext⟩ := h.due hm hd
    refine .inr ⟨c, hmanaged, ?_⟩
    intro held held' rest hbefore hafter
    unfold due? at hd
    split at hd
    · next hp =>
      cases hd
      have hfree : u.held = [] := by simp [Task.held, Holds, hp]
      rw [hfree] at hbefore
      cases hans : ((Call.retain u.address).run.run p.managed).answer with
      | ok x =>
        rw [hans] at hnext
        have hholds : u'.held = [u.address] := hnext ▸ if_pos trivial
        rw [hholds] at hafter
        exact .retain (hafter.trans (hbefore.symm.cons _))
      | error e =>
        rw [hans] at hnext
        have hfree' : u'.held = [] := hnext ▸ if_neg id
        rw [hfree'] at hafter
        exact .retainFails (hafter.trans hbefore.symm)
    · next hp =>
      cases hd
      have hholds : u.held = [u.address] := by simp [Task.held, Holds, hp]
      have hfree : u'.held = [] := by
        rw [hnext]
        cases ((Call.unretain u.address).run.run p.managed).answer <;> exact if_neg id
      rw [hholds] at hbefore
      rw [hfree] at hafter
      exact .unretain (hbefore.trans (hafter.symm.cons _))
    · cases hd

end Task.Steps

end PinnedHeap
