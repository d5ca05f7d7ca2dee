import PinnedHeap.Proofs.Guard.Events
import PinnedHeap.Proofs.Heap.Standstill
import PinnedHeap.Proofs.Session.Ledger

/-!
# Pins in flight

A pin of a buffer is in flight from the call that puts collections off and
captures the address until the call that allows them again. Any number of pins
may be in flight at once, and the other owners go on with the heap in the
meantime. `Session.Flies` is a run that keeps book of the buffers that are being
pinned, owner by owner; the heap has as many inhibitors as there are pins in
flight. So nothing moves before the task has retained the address.
-/

namespace PinnedHeap

open Heap (Call Answer)
open Exchange (Matched)

/-- The buffer that an owner is asked to pin. -/
def Request.buffer? : Request → Option Nat
  | pin id _ => some id
  | _ => none

/-- Collections are put off by pins and by nothing else, and what is pinned is a buffer that
exists. -/
def Request.Proper (h : Heap) : Request → Prop
  | call c => ¬ c.Regulates
  | pin id _ => (h.object? id).isSome = true
  | _ => True

instance (h : Heap) (r : Request) : Decidable (r.Proper h) := by
  unfold Request.Proper
  split <;> infer_instance

namespace Stage

variable {σ : Type}

/-- What the owner does last about the guard that it is making. -/
def cleanup? : Stage σ → Option (Action Notice σ Unit)
  | launching _ _ _ cleanup => some cleanup
  | awaitingPin _ _ cleanup => some cleanup
  | joiningFailed _ _ cleanup => some cleanup
  | cleaningUp _ cleanup => some cleanup
  | _ => none

/-- The address that the owner makes a guard of, or has made one of. -/
def captured? : Stage σ → Option Nat
  | launching _ _ a _ => some a
  | awaitingPin _ a _ => some a
  | joiningFailed _ a _ => some a
  | cleaningUp (.ok (.ok g)) _ => some g.address
  | _ => none

/-- What is done last about a guard: collections are allowed again if a buffer was pinned. -/
def tidying : Option Nat → Action Notice Heap Unit
  | none => pure ()
  | some _ => Action.within .whole Heap.allow

/-- An owner at this stage is pinning the buffer `pin`, if any, and has captured the address
that the buffer has. -/
structure Pins (h : Heap) (pin : Option Nat) (stage : Stage Heap) : Prop where
  cleanup : ∀ c, stage.cleanup? = some c → c = tidying pin
  making : pin.isSome = true → stage.cleanup?.isSome = true
  place : ∀ id, pin = some id → ∃ a, h.LiesAt id a ∧ ∀ b, stage.captured? = some b → b = a

variable {h k : Heap} {pin : Option Nat} {stage stage' : Stage Heap}

theorem Pins.mono (hp : stage.Pins h pin)
    (hk : pin.isSome = true → ∀ id a, h.LiesAt id a → k.LiesAt id a) : stage.Pins k pin where
  cleanup := hp.cleanup
  making := hp.making
  place id hid := by
    obtain ⟨a, ha, hb⟩ := hp.place id hid
    exact ⟨a, hk (by rw [hid]; rfl) id a ha, hb⟩

/-- The owner goes on with the same pin. -/
theorem Pins.onward (hp : stage.Pins h pin) (hc : stage'.cleanup? = stage.cleanup?)
    (ha : ∀ b, stage'.captured? = some b → stage.captured? = some b) : stage'.Pins h pin where
  cleanup c hc' := hp.cleanup c (hc ▸ hc')
  making hpin := by
    rw [hc]
    exact hp.making hpin
  place id hid := by
    obtain ⟨a, hl, hb⟩ := hp.place id hid
    exact ⟨a, hl, fun b hb' => hb b (ha b hb')⟩

/-- An owner that does not make a guard is pinning nothing. -/
theorem Pins.eq_none (hp : stage.Pins h pin) (hc : stage.cleanup? = none) : pin = none := by
  cases pin with
  | none => rfl
  | some id =>
    have hsome := hp.making rfl
    rw [hc] at hsome
    cases hsome

theorem pins_none (hc : stage.cleanup? = none) : stage.Pins h none where
  cleanup c hc' := by
    rw [hc] at hc'
    cases hc'
  making hpin := by cases hpin
  place id hid := by cases hid

end Stage

/-! ## What owners do -/

/-- With its step an owner goes over from pinning `pin` to pinning `pin'`, and the heap from `h`
to `k`. -/
structure Shifts (h k : Heap) (pin pin' : Option Nat) (stage' : Stage Heap) : Prop where
  pins : stage'.Pins k pin'
  inhibitors : k.inhibitors + pin.toList.length = h.inhibitors + pin'.toList.length
  liesAt : 0 < h.inhibitors → ∀ id a, h.LiesAt id a → k.LiesAt id a

namespace Shifts

variable {h k : Heap} {pin : Option Nat} {stage stage' : Stage Heap}

theorem of_eq (hk : k = h) (hp : stage'.Pins h pin) : Shifts h k pin pin stage' := by
  subst hk
  exact ⟨hp, rfl, fun _ _ _ hl => hl⟩

/-- It never fails to tidy up, as collections are put off until it does. -/
theorem answer_tidying (hin : pin.isSome = true → 0 < h.inhibitors) :
    ((Stage.tidying pin).run h).answer = .ok () := by
  cases pin with
  | none => rfl
  | some id =>
    show (Heap.allow.run h).answer = .ok ()
    rw [Heap.run_allow (hin rfl)]

/-- The last thing that an owner does about a pin. -/
theorem tidying (hin : pin.isSome = true → 0 < h.inhibitors) :
    Shifts h ((Stage.tidying pin).run h).state pin none .idle := by
  cases pin with
  | none => exact .of_eq rfl (Stage.pins_none rfl)
  | some id =>
    have hpos := hin rfl
    show Shifts h (Heap.allow.run h).state (some id) none .idle
    rw [Heap.run_allow hpos]
    exact ⟨Stage.pins_none rfl, Nat.sub_add_cancel hpos, fun _ j a hl => hl⟩

end Shifts

namespace Owner.Steps

variable {w w' : Owner Heap Answer} {p p' : Shared Heap} {pin : Option Nat}

/-- An owner goes on with what it is in the middle of. -/
theorem shifts (h : Steps w p w' p') (hw : w.Wired) (hbusy : w.stage.isIdle = false)
    (hp : w.stage.Pins p.managed pin) (hin : pin.isSome = true → 0 < p.managed.inhibitors) :
    Shifts p.managed p'.managed pin (if w'.stage.isIdle then none else pin) w'.stage := by
  have hwired := hw.stage
  -- a stage of a release is none of a pin
  have hrelease : w.stage.cleanup? = none → p'.managed = p.managed →
      w'.stage.cleanup? = none →
      Shifts p.managed p'.managed pin (if w'.stage.isIdle then none else pin) w'.stage := by
    intro hc hk hc'
    have hnone := hp.eq_none hc
    subst hnone
    rw [ite_self]
    exact .of_eq hk (Stage.pins_none hc')
  have htidy : ∀ {made : Except Fault (Except Refusal Guard)} {cleanup : Action Notice Heap Unit},
      w.stage = .cleaningUp made cleanup →
      (cleanup.run p.managed).answer = .ok () ∧
        Shifts p.managed (cleanup.run p.managed).state pin none .idle := by
    intro made cleanup hs
    have hc : cleanup = Stage.tidying pin := hp.cleanup cleanup (by rw [hs]; rfl)
    rw [hc]
    exact ⟨Shifts.answer_tidying hin, .tidying hin⟩
  cases h with
  | launchFails hs hn => exact .of_eq rfl (hp.onward (by rw [hs]; rfl) fun b hb => by cases hb)
  | launchRefused hs hr hc =>
    rw [hs] at hwired
    refine .of_eq ?_ (hp.onward (by rw [hs]; rfl) fun b hb => by cases hb)
    rw [hwired.1]
    rfl
  | launchCloseFails hs hr hc =>
    rw [hs] at hwired
    refine .of_eq ?_ (hp.onward (by rw [hs]; rfl) fun b hb => by cases hb)
    rw [hwired.1]
    rfl
  | launch hs hr =>
    refine .of_eq rfl (hp.onward (by rw [hs]; rfl) fun b hb => ?_)
    rw [hs]
    exact hb
  | passPin hs ht hf =>
    refine .of_eq rfl (hp.onward (by rw [hs]; rfl) fun b hb => ?_)
    rw [hs]
    exact hb
  | missPin hs ht =>
    refine .of_eq rfl (hp.onward (by rw [hs]; rfl) fun b hb => ?_)
    rw [hs]
    exact hb
  | joinFailed hs he => exact .of_eq rfl (hp.onward (by rw [hs]; rfl) fun b hb => by cases hb)
  | cleanUpFails hs hm he => cases (htidy hs).1.symm.trans he
  | cleanUpDrops hs he => cases (htidy hs).1.symm.trans he
  | notMade hs hc => exact (htidy hs).2
  | refused hs hc => exact (htidy hs).2
  | made hs hc => exact (htidy hs).2
  | dropReleased hs ha => exact hrelease (by rw [hs]; rfl) rfl rfl
  | dropNobody hs ha ht => exact hrelease (by rw [hs]; rfl) rfl rfl
  | drop hs ha ht => exact hrelease (by rw [hs]; rfl) rfl rfl
  | clearNone hs hg => exact hrelease (by rw [hs]; rfl) rfl rfl
  | clearUnbound hs hg hslot => exact hrelease (by rw [hs]; rfl) rfl rfl
  | clear hs hg hslot => exact hrelease (by rw [hs]; rfl) rfl rfl
  | tellNone hs hg => exact hrelease (by rw [hs]; rfl) rfl rfl
  | tellNobody hs hg ht => exact hrelease (by rw [hs]; rfl) rfl rfl
  | tell hs hg ht => exact hrelease (by rw [hs]; rfl) rfl rfl
  | passRelease hs hr => exact hrelease (by rw [hs]; rfl) rfl rfl
  | join hs he => exact hrelease (by rw [hs]; rfl) rfl rfl
  | _ => simp_all [Stage.isIdle]

theorem isIdle_of_act {x : Action Notice Heap Answer} {program : List (Command Heap Answer)}
    (h : Steps w p w' p') (hs : w.stage = .idle) (hp : w.program = .act x :: program) :
    w'.stage = .idle := by
  cases h with
  | act hs' hp' => rfl
  | _ => simp_all

/-- A pin begins with the capture of the address that the buffer has, or fails without an
effect. -/
theorem shifts_pin {id : Nat} {settings : TaskSettings} {program : List (Command Heap Answer)}
    (h : Steps w p w' p') (hs : w.stage = .idle)
    (hp : w.program = (Request.pin id settings).command :: program)
    (hex : (p.managed.object? id).isSome = true) :
    Shifts p.managed p'.managed none (if w'.stage.isIdle then none else some id) w'.stage := by
  cases h with
  | @prepareFails _ _ _ _ _ e hs' hp' he =>
    rw [hp] at hp'
    cases hp'
    have he : ((Heap.capture id).run p.managed).answer = .error e := he
    exact .of_eq (Heap.state_capture_of_error hex he) (Stage.pins_none rfl)
  | @prepare _ _ _ _ _ a hs' hp' ha =>
    rw [hp] at hp'
    cases hp'
    have ha : ((Heap.capture id).run p.managed).answer = .ok a := ha
    obtain ⟨hk, hl⟩ := Heap.state_capture_of_ok ha
    show Shifts p.managed ((Heap.capture id).run p.managed).state none (some id)
      (.launching settings (.heap .whole) a (Action.within .whole Heap.allow))
    rw [hk]
    refine ⟨⟨?_, fun _ => rfl, ?_⟩, rfl, fun _ j b hl => hl⟩
    · intro c hc
      cases hc
      rfl
    · intro j hj
      cases hj
      refine ⟨a, hl, ?_⟩
      intro b hb
      cases hb
      rfl
  | _ => simp_all [Request.command]

/-- An owner begins with what it is asked for. -/
theorem shifts_ask {r : Request} {program : List (Command Heap Answer)} (h : Steps w p w' p')
    (hs : w.stage = .idle) (hp : w.program = r.command :: program) (hr : r.Proper p.managed)
    (hcall : ∀ c, r = .call c → p'.managed = (c.run.run p.managed).state →
      Shifts p.managed p'.managed none none .idle) :
    Shifts p.managed p'.managed none (if w'.stage.isIdle then none else r.buffer?) w'.stage := by
  cases r with
  | call c =>
    rw [h.isIdle_of_act hs hp]
    exact hcall c rfl (h.act_eq hs hp).2
  | pin id settings => exact h.shifts_pin hs hp hr
  | guard a settings =>
    cases h with
    | prepareFails hs' hp' he =>
      rw [hp] at hp'
      cases hp'
      exact .of_eq rfl (Stage.pins_none rfl)
    | prepare hs' hp' ha =>
      rw [hp] at hp'
      cases hp'
      refine .of_eq rfl ⟨?_, fun hpin => absurd hpin Bool.false_ne_true, fun j hj => nomatch hj⟩
      intro c hc
      cases hc
      rfl
    | _ => simp_all [Request.command]
  | store k slot =>
    cases h with
    | storeNone => exact .of_eq rfl (Stage.pins_none rfl)
    | storeBound => exact .of_eq rfl (Stage.pins_none rfl)
    | storeReleased => exact .of_eq rfl (Stage.pins_none rfl)
    | store => exact .of_eq rfl (Stage.pins_none rfl)
    | _ => simp_all [Request.command]
  | release k unwinding =>
    cases h with
    | releaseNone => exact .of_eq rfl (Stage.pins_none rfl)
    | releaseAgain => exact .of_eq rfl (Stage.pins_none rfl)
    | release => exact .of_eq rfl (Stage.pins_none rfl)
    | _ => simp_all [Request.command]

end Owner.Steps

/-! ## The book of pins -/

/-- Is the owner in the middle of something? -/
def Session.isBusy (s : Session) (i : Nat) : Bool := s.owners[i]?.any fun w => !w.stage.isIdle

/-- The buffers that owners are pinning, after a move that has led to `t`. -/
def Move.pins (t : Session) (ps : List (Option Nat)) : Move → List (Option Nat)
  | ask i r => ps.set i (if t.isBusy i then r.buffer? else none)
  | go (.owner i) => if t.isBusy i then ps else ps.set i none
  | go (.task _) => ps

/-- What an owner is asked for is proper. -/
def Move.Proper (h : Heap) : Move → Prop
  | ask _ r => r.Proper h
  | go _ => True

instance (h : Heap) (m : Move) : Decidable (m.Proper h) := by
  unfold Move.Proper
  split <;> infer_instance

namespace Session

variable {s t u : Session} {m : Move} {es fs : List Exchange} {ps : List (Option Nat)}

/-- Owners are pinning the buffers `ps`, and that is what the inhibitors of the heap are
for. -/
structure InFlight (s : Session) (ps : List (Option Nat)) : Prop where
  length : ps.length = s.owners.length
  pins : ∀ (i : Nat) (w : Owner Heap Answer) (pin : Option Nat), s.owners[i]? = some w →
    ps[i]? = some pin → w.stage.Pins s.heap pin
  inhibitors : s.heap.inhibitors = ps.countP Option.isSome

namespace InFlight

theorem inhibitors_pos (hf : InFlight s ps) {i : Nat} {pin : Option Nat}
    (hpin : ps[i]? = some pin) (hsome : pin.isSome = true) : 0 < s.heap.inhibitors := by
  rw [hf.inhibitors]
  exact List.countP_pos_iff.2 ⟨pin, List.mem_of_getElem? hpin, hsome⟩

theorem exists_pin (hf : InFlight s ps) {i : Nat} {w : Owner Heap Answer}
    (hw : s.owners[i]? = some w) : ∃ pin, ps[i]? = some pin := by
  have hi := (List.getElem?_eq_some_iff.1 hw).1
  exact ⟨_, List.getElem?_eq_getElem (by rw [hf.length]; exact hi)⟩

/-- One owner takes a step. -/
theorem shift {i : Nat} {w w' : Owner Heap Answer} {pin pin' : Option Nat} (hf : InFlight s ps)
    (hw : s.owners[i]? = some w) (hpin : ps[i]? = some pin)
    (ht : t.owners = s.owners.set i w') (hs : Shifts s.heap t.heap pin pin' w'.stage) :
    InFlight t (ps.set i pin') where
  length := by rw [ht, List.length_set, List.length_set, hf.length]
  pins := by
    intro j v q hv hq
    rw [ht] at hv
    rcases getElem?_set_eq_some hw hv with ⟨rfl, rfl⟩ | ⟨hj, hv⟩
    · rw [getElem?_set_self_of_some hpin] at hq
      cases hq
      exact hs.pins
    · rw [List.getElem?_set_ne (Ne.symm hj)] at hq
      exact (hf.pins j v q hv hq).mono fun hsome => hs.liesAt (hf.inhibitors_pos hq hsome)
  inhibitors := by
    obtain ⟨hi, rfl⟩ := List.getElem?_eq_some_iff.1 hpin
    have hcount := hs.inhibitors
    have hpos := hf.inhibitors_pos hpin
    rw [List.countP_set hi, ← hf.inhibitors]
    generalize ps[i] = pin at hcount hpos
    cases pin <;> cases pin' <;>
      simp only [Option.toList_none, Option.toList_some, Option.isSome_none, Option.isSome_some,
        List.length_nil, List.length_singleton, if_true, Bool.false_eq_true, if_false,
        forall_const] at * <;>
      omega

/-- The heap changes, and nobody's pin. -/
theorem keep (hf : InFlight s ps) (ht : t.owners = s.owners)
    (hin : t.heap.inhibitors = s.heap.inhibitors)
    (hl : 0 < s.heap.inhibitors → ∀ id a, s.heap.LiesAt id a → t.heap.LiesAt id a) :
    InFlight t ps where
  length := by rw [ht, hf.length]
  pins := by
    intro j v q hv hq
    rw [ht] at hv
    exact (hf.pins j v q hv hq).mono fun hsome => hl (hf.inhibitors_pos hq hsome)
  inhibitors := hin.trans hf.inhibitors

end InFlight

/-- What a call does to pins in flight, if it is not about them. -/
theorem shifts_of_call (hs : s.Sound) {c : Call} (hh : t.heap = (c.run.run s.heap).state)
    (hsup : t.heap.Supplied) (hc : c.Admissible s.heap) (hr : ¬ c.Regulates) :
    Shifts s.heap t.heap none none .idle := by
  have hresp := hs.responds hh hsup
  refine ⟨Stage.pins_none rfl, ?_, ?_⟩
  · rw [hresp.inhibitors hr]
  · intro hin id a hl
    exact hresp.liesAt hs.settled hsup hc hin hl

theorem isBusy_set {i : Nat} {w w' : Owner Heap Answer} (hw : s.owners[i]? = some w)
    (ht : t.owners = s.owners.set i w') : t.isBusy i = !w'.stage.isIdle := by
  rw [isBusy, ht, getElem?_set_self_of_some hw, Option.any_some]

theorem InFlight.move? (hf : InFlight s ps) (hs : s.Sound) (h : s.move? m = some t)
    (hc : m.Admissible s.heap) (hp : m.Proper s.heap) (hsup : t.heap.Supplied) :
    InFlight t (m.pins t ps) := by
  rcases move?_cases h with ⟨i, r, w, rfl, hw, hstage, hmove⟩ | ⟨a, rfl, hmove⟩
  · obtain ⟨w', hstep, howners⟩ := hmove.owner_cases (getElem?_told hw r)
    have howners : t.owners = s.owners.set i w' := by rw [howners, told, List.set_set]
    obtain ⟨pin, hpin⟩ := hf.exists_pin hw
    have hnone : pin = none := (hf.pins i w pin hw hpin).eq_none (by rw [hstage]; rfl)
    subst hnone
    have hcall : ∀ c, r = .call c → t.heap = (c.run.run s.heap).state →
        Shifts s.heap t.heap none none .idle := by
      rintro c rfl hh
      exact shifts_of_call hs hh hsup (hc c rfl) hp
    have hshift := hstep.shifts_ask hstage rfl hp hcall
    rw [Move.pins, isBusy_set hw howners]
    have hsame : (if (!w'.stage.isIdle) = true then r.buffer? else none) =
        if w'.stage.isIdle = true then none else r.buffer? := by
      cases w'.stage.isIdle <;> rfl
    rw [hsame]
    exact hf.shift hw hpin howners hshift
  cases a with
  | owner i =>
    have hget : ∃ w, s.owners[i]? = some w := by
      cases hmove with
      | owner hw hstep => exact ⟨_, hw⟩
    obtain ⟨w, hw⟩ := hget
    obtain ⟨w', hstep, howners⟩ := hmove.owner_cases hw
    obtain ⟨pin, hpin⟩ := hf.exists_pin hw
    have hmem := List.mem_of_getElem? hw
    have hbusy : w.stage.isIdle = false := by
      rcases hstep.program_cases with ⟨-, c, hprogram⟩ | ⟨hne, -⟩
      · rw [hs.resting w hmem] at hprogram
        cases hprogram
      · cases hstage : w.stage <;> simp_all [Stage.isIdle]
    have hshift := hstep.shifts (hs.wired.owner w hmem) hbusy (hf.pins i w pin hw hpin)
      (hf.inhibitors_pos hpin)
    rw [Move.pins, isBusy_set hw howners]
    cases hidle : w'.stage.isIdle with
    | true =>
      rw [hidle] at hshift
      exact hf.shift hw hpin howners hshift
    | false =>
      rw [hidle] at hshift
      have hset : ps.set i pin = ps := Owner.set_self hpin
      have hsame := hf.shift hw hpin howners hshift
      rw [if_neg Bool.false_ne_true, hset] at hsame
      exact hsame
  | task j =>
    obtain ⟨v, v', p, hv, hstep, hshared, howners⟩ := hmove.task_cases
    have hwired := hs.wired.task v (List.mem_of_getElem? hv)
    have hheap : t.heap = p.managed := by rw [heap, hshared]; rfl
    cases hd : v.due? with
    | none =>
      have hsame : t.heap = s.heap := hheap.trans (hstep.managed_of_not_due hwired hd)
      exact hf.keep howners (by rw [hsame]) fun _ id a hl => hsame ▸ hl
    | some due =>
      have hh : t.heap = (due.1.run.run s.heap).state := hheap.trans (hstep.due hwired hd).1
      have hcall : s.call? (.go (.task j)) = some due.1 := by simp [call?, hv, hd]
      have hr : ¬ due.1.Regulates := by
        unfold Task.due? at hd
        split at hd <;> cases hd <;> exact id
      have hshift := shifts_of_call hs hh hsup (admissible_of_call? hc hcall) hr
      exact hf.keep howners hshift.inhibitors hshift.liesAt

/-! ## Runs with pins in flight -/

/-- A run in which owners are asked for what is proper, with the buffers that they are pinning
in the end. -/
inductive Flies (s : Session) : List (Option Nat) → List Exchange → Session → Prop where
  | refl : Flies s (s.owners.map fun _ => none) [] s
  | move {ps : List (Option Nat)} {es : List Exchange} {t u : Session} (m : Move)
      (h : Flies s ps es t) (hm : t.move? m = some u) (hc : m.Admissible t.heap)
      (hp : m.Proper t.heap) (hs : u.heap.Supplied) :
      Flies s (m.pins u ps) (es ++ m.exchanges t.heap) u

theorem Flies.runs (h : Flies s ps es t) : Runs s es t := by
  induction h with
  | refl => exact .refl
  | move m h hm hc hp hs ih => exact ih.move m hm hc hs

theorem inFlight_start (placement : Nat → Nat) (config : Heap.Config)
    (refusal : TaskSettings → Option String) (threads : List String) :
    InFlight (start (.create placement config) refusal threads)
      ((start (.create placement config) refusal threads).owners.map fun _ => none) where
  length := List.length_map _
  pins := by
    intro i w pin hw hpin
    obtain ⟨name, -, rfl⟩ := List.mem_map.1 (List.mem_of_getElem? hw)
    obtain ⟨-, -, rfl⟩ := List.mem_map.1 (List.mem_of_getElem? hpin)
    exact Stage.pins_none rfl
  inhibitors := by
    symm
    apply List.countP_eq_zero.2
    intro pin hpin
    obtain ⟨-, -, rfl⟩ := List.mem_map.1 hpin
    exact Bool.false_ne_true

theorem Flies.inFlight (h : Flies s ps es t) (hs : s.Sound)
    (h₀ : InFlight s (s.owners.map fun _ => none)) : InFlight t ps := by
  induction h with
  | refl => exact h₀
  | move m h hm hc hp hsup ih => exact ih.move? (h.runs.sound hs) hm hc hp hsup

/-- Lets moves happen one after the other, as long as that makes a run, and keeps book of the
pins. -/
def flights? (s : Session) (ps : List (Option Nat)) :
    List Move → Option (List (Option Nat) × Session)
  | [] => some (ps, s)
  | m :: ms => do
    let t ← s.move? m
    guard (m.Admissible s.heap ∧ m.Proper s.heap ∧ t.heap.Supplied)
    t.flights? (m.pins t ps) ms

theorem Flies.of_flights? {qs : List (Option Nat)} {ms : List Move} (h : Flies s ps es t)
    (hu : t.flights? ps ms = some (qs, u)) : ∃ fs, Flies s qs fs u := by
  induction ms generalizing t ps es with
  | nil =>
    cases hu
    exact ⟨es, h⟩
  | cons m ms ih =>
    simp only [flights?, Option.bind_eq_bind, Option.bind_eq_some_iff, Option.guard_eq_some'] at hu
    obtain ⟨v, hv, -, ⟨hc, hp, hsup⟩, hrest⟩ := hu
    exact ih (h.move m hv hc hp hsup) hrest

/-- As long as collections are put off, no move completes one, and no object moves. -/
theorem still_of_move? (hs : s.Sound) (hin : 0 < s.heap.inhibitors) (h : s.move? m = some t)
    (hc : m.Admissible s.heap) (hsup : t.heap.Supplied) :
    t.heap.collections = s.heap.collections ∧
      ∀ id a, s.heap.LiesAt id a → t.heap.LiesAt id a := by
  have hcalled : ∀ {c : Call}, t.heap = (c.run.run s.heap).state → c.Admissible s.heap →
      t.heap.collections = s.heap.collections ∧
        ∀ id a, s.heap.LiesAt id a → t.heap.LiesAt id a := by
    intro c hh hadm
    have hr := hs.responds hh hsup
    exact ⟨hr.collections hin, fun id a hl => hr.liesAt hs.settled hsup hadm hin hl⟩
  cases touches_of_move? h hs.wired hs.resting with
  | nothing hnone hh hperm =>
    rw [hh]
    exact ⟨rfl, fun id a hl => hl⟩
  | asked hcall hh hperm => exact hcalled hh (hc _ hcall)
  | served hnone hh hserves => exact hcalled hh (hserves.admissible _)

/-- A task that is about to retain the address at which an object lies retains that object. -/
theorem retains_of_liesAt {j id : Nat} {v : Task Heap} (hs : s.Sound)
    (hv : s.shared.tasks[j]? = some v) (hp : v.phase = .retain)
    (hl : s.heap.LiesAt id v.address) :
    ∃ o t, s.heap.object? id = some o ∧ s.move? (.go (.task j)) = some t ∧
      (o.retains + 1 < Word.limit → Retains s j v.address id t) := by
  obtain ⟨o, ho, hcov⟩ := hl.covers hs.settled
  obtain ⟨t, ht⟩ := Threads.exists_step?_task hv (by simp [Task.isReady, hp])
  have hd : v.due? = some (.retain v.address, .countIn) := by simp [Task.due?, hp]
  obtain ⟨hh, hafter⟩ := due_of_move? ht hs.wired hv hd
  refine ⟨o, t, ho, ht, ?_⟩
  intro hlt
  have hr : Heap.Responds s.heap _ _ _ := Heap.conforms_retain hs.settled hs.supplied v.address
  rcases hr.of_retain hs.settled ho hcov with ⟨-, hok, hk⟩ | ⟨hge, -, -⟩
  · rw [hok] at hafter
    exact ⟨ht, ⟨v, hv, rfl, hp⟩, ⟨o, ho, hcov, hh.trans hk⟩, _, hafter, rfl, trivial⟩
  · exact absurd hlt hge

/-- What holds while owner `i` is pinning the buffer `id`, after the exchanges `es`. -/
structure Undisturbed (t : Session) (es : List Exchange) (i id : Nat) : Prop where
  /-- The address that was captured is the one that the buffer has. -/
  captured : ∃ w a, t.owners[i]? = some w ∧ t.heap.LiesAt id a ∧
    ∀ b, w.stage.captured? = some b → b = a
  /-- No collection is completed, and nothing moves. -/
  still : ∀ m u, t.move? m = some u → m.Admissible t.heap → u.heap.Supplied →
    u.heap.collections = t.heap.collections ∧ ∀ j a, t.heap.LiesAt j a → u.heap.LiesAt j a
  /-- Collections are put off. -/
  deferred : ∀ c : Call, c = .collect ∨ c = .collectIfWanted →
    (c.run.run t.heap).answer = .ok (.report none) ∧
      ∃ wanted, (c.run.run t.heap).state = { t.heap with wantsCollection := wanted }
  /-- Collections can be allowed again. -/
  allowed : (Call.allow.run.run t.heap).answer = .ok .done
  /-- The task retains the buffer, as long as a word counts the retains. -/
  retained : ∀ w j a cleanup v, t.owners[i]? = some w → w.stage = .awaitingPin j a cleanup →
    t.shared.tasks[j]? = some v → v.phase = .retain →
      ∃ o u, t.heap.object? id = some o ∧ t.move? (.go (.task j)) = some u ∧
        (o.retains + 1 < Word.limit → Retains t j a id u)
  /-- The guard that was made has the address of the buffer, and they keep it both until the
  guard is released. -/
  established : ∀ w g cleanup, t.owners[i]? = some w →
    w.stage = .cleaningUp (.ok (.ok g)) cleanup → t.heap.LiesAt id g.address ∧
      ∀ fs u, Runs t fs u → Matched (es ++ fs) → ∀ n k g', u.guard? n k = some g' →
        g'.task = g.task → g'.address ≠ 0 →
          g'.address = g.address ∧ u.heap.LiesAt id g.address

/-- A guard keeps its address, and the object there keeps its place, until it is released. -/
theorem guard_stays {i id : Nat} {w : Owner Heap Answer} {g : Guard}
    {cleanup : Action Notice Heap Unit} (ht : t.Sound) (ha : t.Accounted es)
    (hw : t.owners[i]? = some w) (hstage : w.stage = .cleaningUp (.ok (.ok g)) cleanup)
    (hl : t.heap.LiesAt id g.address) (h : Runs t fs u) (hm : Matched (es ++ fs)) {n k : Nat}
    {g' : Guard} (hg : u.guard? n k = some g') (htask : g'.task = g.task)
    (hg' : g'.address ≠ 0) : g'.address = g.address ∧ u.heap.LiesAt id g.address := by
  obtain ⟨x, hx, hxg⟩ := Threads.guard?_eq_some.1 hg
  have hu := h.sound ht
  obtain ⟨j, hj, hholds⟩ := ht.orderly.holds_made hw hstage
  obtain ⟨j', hj', hholds'⟩ :=
    hu.orderly.holds hx hxg ((hu.orderly.owner n x hx).guard k g' hxg hg')
  obtain rfl : j = j' := by
    rw [htask, hj] at hj'
    exact Option.some.inj hj'
  -- it is the same task, so it is the same address
  have hsame : g'.address = g.address := by
    obtain ⟨v, hv, hva, -⟩ := hholds
    obtain ⟨v', hv', hva', -⟩ := hholds'
    obtain ⟨v'', hv'', hcont⟩ := h.grows j v hv
    rw [hv'] at hv''
    cases hv''
    rw [← hva', ← hva, hcont.address]
  refine ⟨hsame, ?_⟩
  rw [hsame] at hholds'
  have haddress := hl
  obtain ⟨o, ho, hcov⟩ := hl.covers ht.settled
  obtain ⟨o', ho', hoa⟩ := haddress
  rw [ho] at ho'
  cases ho'
  obtain ⟨p, hp, hpa, -⟩ := h.keeps ht ha hm hholds hholds' ho hcov
  exact ⟨p, hp, hpa.trans hoa⟩

/-- A task retains its address while its owner waits for that, so while it is pinning. -/
theorem awaited_of_retain (ht : t.Sound) {j : Nat} {v : Task Heap}
    (hv : t.shared.tasks[j]? = some v) (hp : v.phase = .retain) :
    ∃ (i : Nat) (w : Owner Heap Answer) (cleanup : Action Notice Heap Unit),
      t.owners[i]? = some w ∧ w.stage = .awaitingPin j v.address cleanup := by
  have hcoherent := ht.orderly.coherent j v hv
  rw [Task.Coherent, hp] at hcoherent
  obtain ⟨i, w, a, cleanup, hw, hstage⟩ := ht.orderly.awaited j v hv hcoherent
  have horderly := (ht.orderly.owner i w hw).stage
  rw [hstage] at horderly
  obtain ⟨v', hv', rfl⟩ := horderly
  rw [hv] at hv'
  cases hv'
  exact ⟨i, w, cleanup, hw, hstage⟩

/-- However many buffers are being pinned, and whatever else is done with the heap meanwhile: a
buffer that is being pinned is undisturbed, and the heap has as many inhibitors as there are
such buffers. No task retains its address but while its owner waits for that. -/
theorem Flies.pins_are_undisturbed {placement : Nat → Nat} {config : Heap.Config}
    {refusal : TaskSettings → Option String} {threads : List String}
    (h : Flies (start (.create placement config) refusal threads) ps es t) :
    t.heap.inhibitors = ps.countP Option.isSome ∧
      (∀ i id, ps[i]? = some (some id) → Undisturbed t es i id) ∧
      ∀ (j : Nat) (v : Task Heap), t.shared.tasks[j]? = some v → v.phase = .retain →
        ∃ (i : Nat) (w : Owner Heap Answer) (cleanup : Action Notice Heap Unit),
          t.owners[i]? = some w ∧ w.stage = .awaitingPin j v.address cleanup := by
  have hs₀ := sound_start placement config refusal threads
  have ht := h.runs.sound hs₀
  have hf := h.inFlight hs₀ (inFlight_start placement config refusal threads)
  refine ⟨hf.inhibitors, ?_, fun j v => awaited_of_retain ht⟩
  intro i id hpin
  have hin := hf.inhibitors_pos hpin rfl
  have hcaptured : ∀ {w : Owner Heap Answer} {b : Nat}, t.owners[i]? = some w →
      w.stage.captured? = some b → t.heap.LiesAt id b := by
    intro w b hw hb
    obtain ⟨a, hl, hba⟩ := (hf.pins i w _ hw hpin).place id rfl
    rw [hba b hb]
    exact hl
  constructor
  case captured =>
    have hi : i < t.owners.length := by
      rw [← hf.length]
      exact (List.getElem?_eq_some_iff.1 hpin).1
    have hw := List.getElem?_eq_getElem hi
    obtain ⟨a, hl, hb⟩ := (hf.pins i _ _ hw hpin).place id rfl
    exact ⟨_, a, hw, hl, hb⟩
  case still =>
    intro m u hmove hc hsup
    exact still_of_move? ht hin hmove hc hsup
  case deferred =>
    intro c hc
    obtain ⟨hans, hstate⟩ := Heap.run_collect_deferred hin hc
    exact ⟨hans, _, hstate⟩
  case allowed =>
    rw [Call.run, Heap.run_return, Heap.run_allow hin]
    rfl
  case retained =>
    intro w j a cleanup v hw hstage hv hp
    have horderly := (ht.orderly.owner i w hw).stage
    rw [hstage] at horderly
    obtain ⟨v', hv', rfl⟩ := horderly
    rw [hv] at hv'
    cases hv'
    exact retains_of_liesAt ht hv hp (hcaptured hw (by rw [hstage]; rfl))
  case established =>
    intro w g cleanup hw hstage
    have hl : t.heap.LiesAt id g.address := hcaptured hw (by rw [hstage]; rfl)
    refine ⟨hl, ?_⟩
    intro fs u hu hm n k g' hg htask hg'
    have ha : t.Accounted ([] ++ es) :=
      h.runs.accounted hs₀ (accounted_start placement config refusal threads) hm.of_append
    exact guard_stays ht ha hw hstage hl hu hm hg htask hg'

/-- Two buffers are being pinned when a collection is asked for. The one pin has been confirmed,
the task of the other one has yet to begin. -/
def overlap : List Move :=
  [.ask 0 (.call (.allocate 24)), .ask 0 (.call (.allocate 16)), .ask 0 (.pin 0 {}),
    .ask 1 (.pin 1 {}), .go (.owner 0), .ask 2 (.call .collect), .go (.owner 1), .go (.task 0),
    .go (.task 0), .go (.task 0), .go (.task 0), .go (.owner 0)]

/-- Three owners and a heap with buckets far apart. -/
def trio : Session :=
  start (.create (Heap.spaced 0x100000 0x100000) {}) Shared.standardRefusal ["a", "b", "c"]

theorem overlapping_pins_are_undisturbed :
    ∃ es t, Flies trio [some 0, some 1, none] es t ∧ t.heap.inhibitors = 2 ∧
      t.heap.wantsCollection = true ∧ Undisturbed t es 0 0 ∧ Undisturbed t es 1 1 := by
  have hrun : (trio.flights? [none, none, none] overlap).map
      (fun run => (run.1, run.2.heap.wantsCollection)) =
        some ([some 0, some 1, none], true) := by decide +kernel
  obtain ⟨⟨qs, t⟩, hflights, heq⟩ := Option.map_eq_some_iff.1 hrun
  obtain ⟨rfl, hwanted⟩ := Prod.mk.inj heq
  obtain ⟨es, h⟩ := Flies.refl.of_flights? hflights
  obtain ⟨hinhibitors, hundisturbed, -⟩ := Flies.pins_are_undisturbed h
  exact ⟨es, t, h, hinhibitors, hwanted, hundisturbed 0 0 rfl, hundisturbed 1 1 rfl⟩

end Session

end PinnedHeap
