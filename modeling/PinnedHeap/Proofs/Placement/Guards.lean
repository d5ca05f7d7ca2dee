import PinnedHeap.Guard.Command
import PinnedHeap.Proofs.Placement.Tasks

/-!
# Guards and commands under two placements

What an owner does about a guard of an address, and about a guard of the same
address under the other placement.
-/

namespace PinnedHeap.Heap.Placements

open Comparison

variable {w : Placements} {owner : String} {a i k : Nat} {p q : Shared Heap} {m : Manager Heap}
  {g g' : Guard}

/-- The guards of the same address. -/
def SameGuard (w : Placements) (g g' : Guard) : Prop :=
  w.Known g.address ∧ g' = g.readdress w.carry

/-- Guards of the same address, or refusals to pin it. -/
def SameMade (w : Placements) : Except Refusal Guard → Except Refusal Guard → Prop
  | .ok g, .ok g' => w.SameGuard g g'
  | .error r, .error r' => r' = r.readdress w.carry
  | _, _ => False

theorem meets_establish (hst : w.SharedAlike p q) (hm : w.Fair m) (ha : w.Known a)
    (settings : TaskSettings) :
    w.shareds.Meets w.SameMade p q (Guard.establish owner settings m a)
      (Guard.establish owner settings m (w.carry a)) := by
  refine (meets_begin hst hm ha settings).bind fun r s p q _ hrs hst => ?_
  subst hrs
  cases r with
  | established i => exact .note_bind rfl rfl (.pure hst ⟨ha, rfl⟩)
  | refused r => exact .note_bind rfl rfl (.pure hst rfl)
  | failed e => cases e <;> exact .fail hst rfl

/-! ## A guard and what its threads share -/

/-- How two runs on a guard are compared. -/
def guards (w : Placements) : Comparison Entry (Guard × Shared Heap) :=
  w.shareds.beside w.SameGuard

theorem isReleased_readdress (hg : w.Known g.address) :
    (g.readdress w.carry).isReleased = g.isReleased := by
  simp only [Guard.isReleased, Guard.readdress]
  rw [Bool.eq_iff_iff, beq_iff_eq, beq_iff_eq]
  exact carry_eq_zero hg

theorem current_bind {α : Type} {Q : α → α → Prop} {x y : Guard × Shared Heap}
    {f f' : Guard → GuardAction Heap α} (h : w.guards.Meets Q x y (f x.1) (f' y.1)) :
    w.guards.Meets Q x y (Guard.current >>= f) (Guard.current >>= f') := by
  unfold Comparison.Meets at *
  simpa only [Guard.current, Action.run_bind, Action.run_read, Action.run_pure, List.nil_append,
    List.append_nil] using h

/-- A cell gets the same address, or zero. -/
theorem ends_writeCell (hst : w.SharedAlike p q) (slot : PinnedHeap.Slot) (a : Nat) :
    w.shareds.Meets (fun _ _ => True) p q
      (Action.update fun p => { p with cells := slot.write a p.cells })
      (Action.update fun p => { p with cells := slot.write (w.carry a) p.cells }) := by
  refine .update { hst with cells := fun b => ?_ } rfl
  by_cases hb : b = slot.address
  · subst hb
    simp only [PinnedHeap.Slot.write, Cells.wordAt_write_self]
  · simp only [PinnedHeap.Slot.write, Cells.wordAt_write_of_ne hb, hst.cells]

theorem ends_store (hg : w.SameGuard g g') (hst : w.SharedAlike p q) (slot : PinnedHeap.Slot) :
    w.guards.Meets (fun _ _ => True) (g, p) (g', q) (Guard.store owner slot)
      (Guard.store owner slot) := by
  obtain ⟨ha, rfl⟩ := hg
  have hxy : w.guards.alike (g, p) (g.readdress w.carry, q) := ⟨⟨ha, rfl⟩, hst⟩
  refine current_bind (.require_bind hxy Iff.rfl rfl fun _ => ?_)
  refine .ite (by rw [isReleased_readdress ha]) (fun _ => .pure hxy trivial) fun _ => ?_
  refine .update_bind rfl ⟨⟨ha, rfl⟩, hst⟩ fun x y _ hxy => ?_
  refine (Meets.within_snd hxy (ends_writeCell hxy.2 slot g.address)).bind ?_
  exact fun _ _ x y _ _ hxy => .note hxy rfl rfl

theorem ends_clearAddress (hg : w.SameGuard g g') (hst : w.SharedAlike p q) :
    w.guards.Meets (fun _ _ => True) (g, p) (g', q) Guard.clearAddress Guard.clearAddress := by
  obtain ⟨-, rfl⟩ := hg
  have hzero : w.Known 0 := .low (by decide)
  refine .update ⟨⟨hzero, ?_⟩, hst⟩ rfl
  simp [Guard.readdress]

theorem ends_clearCell (hg : w.SameGuard g g') (hst : w.SharedAlike p q) :
    w.guards.Meets (fun _ _ => True) (g, p) (g', q) Guard.clearCell Guard.clearCell := by
  obtain ⟨ha, rfl⟩ := hg
  have hslot : (g.readdress w.carry).slot = g.slot := rfl
  refine current_bind ?_
  simp only [hslot]
  cases g.slot with
  | none => exact .pure ⟨⟨ha, rfl⟩, hst⟩ trivial
  | some slot =>
    refine .update_bind rfl ⟨⟨ha, rfl⟩, hst⟩ fun x y _ hxy => ?_
    have hwrite := ends_writeCell hxy.2 slot 0
    rw [carry_zero] at hwrite
    exact .within_snd hxy hwrite

theorem meets_takeTask (hg : w.SameGuard g g') (hst : w.SharedAlike p q) (a : Nat) :
    w.guards.Meets (fun i j => j = i) (g, p) (g', q) (Guard.takeTask a)
      (Guard.takeTask (w.carry a)) := by
  obtain ⟨ha, rfl⟩ := hg
  have htask : (g.readdress w.carry).task = g.task := rfl
  refine current_bind ?_
  simp only [htask]
  cases g.task with
  | none => exact .fail ⟨⟨ha, rfl⟩, hst⟩ rfl
  | some i =>
    refine .update_bind rfl ⟨⟨ha, rfl⟩, hst⟩ fun x y _ hxy => .pure hxy rfl

theorem isUnwound_readdress (hst : w.SharedAlike p q) (i : Nat) :
    q.isUnwound i = p.isUnwound i := by
  simp only [Shared.isUnwound, hst.task? i]
  cases p.tasks[i]? <;> rfl

theorem faultOf_readdress (hst : w.SharedAlike p q) (i : Nat) :
    q.faultOf i = (p.faultOf i).map (Fault.readdress w.carry) := by
  simp only [Shared.faultOf, hst.task? i]
  cases p.tasks[i]? with
  | none => rfl
  | some t => exact t.fault?_readdress

theorem ends_conclude (hst : w.SharedAlike p q) (unwinding : Bool) (a i : Nat) :
    w.shareds.Meets (fun _ _ => True) p q (Shared.conclude owner unwinding a i)
      (Shared.conclude owner unwinding (w.carry a) i) := by
  refine .read_bind ?_
  rw [isUnwound_readdress hst, faultOf_readdress hst]
  cases p.isUnwound i with
  | true =>
    cases p.faultOf i with
    | none => exact .note hst rfl rfl
    | some e => exact .note_bind rfl rfl (.note hst rfl rfl)
  | false =>
    cases p.faultOf i with
    | none => exact .require hst Iff.rfl rfl
    | some e => exact .ite Iff.rfl (fun _ => .note hst rfl rfl) fun _ => .fail hst rfl

theorem SharedAlike.tellTask (hst : w.SharedAlike p q) (i : Nat) :
    w.SharedAlike (p.tellTask i) (q.tellTask i) :=
  hst.modifyTask i fun t u htu => ⟨htu.known, htu.fair, by rw [htu.eq]; rfl⟩

theorem ends_release (hg : w.SameGuard g g') (hst : w.SharedAlike p q) (unwinding : Bool) :
    w.guards.Meets (fun _ _ => True) (g, p) (g', q) (Guard.release owner unwinding)
      (Guard.release owner unwinding) := by
  have hxy : w.guards.alike (g, p) (g', q) := ⟨hg, hst⟩
  have ha := hg.1
  refine current_bind (.ite ?_ (fun _ => .pure hxy trivial) fun _ => ?_)
  · rw [hg.2, isReleased_readdress ha]
  refine (ends_clearAddress hg hst).bind fun _ _ x y _ _ hxy => ?_
  refine (ends_clearCell hxy.1 hxy.2).bind fun _ _ x y _ _ hxy => ?_
  have haddr : g'.address = w.carry g.address := congrArg Guard.address hg.2
  simp only [haddr]
  refine (meets_takeTask hxy.1 hxy.2 g.address).bind fun i j x y _ hij hxy => ?_
  subst hij
  refine .within_snd hxy (.update_bind rfl (hxy.2.tellTask j) fun p q _ hst => ?_)
  exact (ends_runTask hst j).bind fun _ _ p q _ _ hst => ends_conclude hst unwinding _ j

/-! ## Making a guard of an address that is found first -/

theorem ends_drop (hg : w.SameGuard g g') (hst : w.SharedAlike p q) :
    w.shareds.Meets (fun _ _ => True) p q (Guard.drop owner g) (Guard.drop owner g') := by
  intro hsizes
  obtain ⟨hanswer, ⟨-, hstate⟩, hnotices, hcreated⟩ := ends_release hg hst true hsizes
  exact ⟨hanswer, hstate, hnotices, hcreated⟩

theorem meets_handOver {made made' : Except Fault (Except Refusal Guard)}
    {c c' : Except Fault Unit} (hst : w.SharedAlike p q)
    (hmade : w.shareds.Answers w.SameMade made made')
    (hc : w.shareds.Answers (fun _ _ => True) c c') :
    w.shareds.Meets w.SameMade p q (Guard.handOver owner made c)
      (Guard.handOver owner made' c') := by
  match c, c', hc with
  | .ok _, .ok _, _ => exact .ofExcept hst hmade
  | .error e, .error e', he =>
    match made, made', hmade with
    | .ok (.ok _), .ok (.ok _), hg =>
      exact (ends_drop hg hst).bind fun _ _ _ _ _ _ hst => .fail hst he
    | .ok (.error _), .ok (.error _), _ => exact .fail hst he
    | .error _, .error _, _ => exact .fail hst he

/-- An address is found, pinned, and then there is a clean-up. -/
theorem meets_establishBetween {prepare : HeapAction Nat} {prepare' : HeapAction Nat}
    {cleanup cleanup' : HeapAction Unit} (hst : w.SharedAlike p q) (hm : w.Fair m)
    (settings : TaskSettings)
    (hprepare : w.heaps.Meets w.SameAddress p.managed q.managed prepare prepare')
    (hcleanup : ∀ h k, w.Alike h k → w.Ends h k cleanup cleanup') :
    w.shareds.Meets w.SameMade p q (Guard.establishBetween owner settings m prepare cleanup)
      (Guard.establishBetween owner settings m prepare' cleanup') := by
  refine (meets_onManaged hst hprepare).bind fun a a' p q _ haa hst => ?_
  obtain ⟨ha, rfl⟩ := haa
  refine (meets_establish hst hm ha settings).attempt.bind fun r s p q _ hrs hst => ?_
  refine (meets_onManaged hst (hcleanup _ _ hst.managed)).attempt.bind fun c c' p q _ hc hst => ?_
  exact meets_handOver hst hrs hc

/-! ## All guards of an owner -/

/-- The guards of the same addresses. -/
def SameGuards (w : Placements) (gs gs' : List Guard) : Prop :=
  (∀ g ∈ gs, w.Known g.address) ∧ gs' = gs.map (Guard.readdress w.carry)

theorem SameGuards.states {gs gs' : List Guard} (h : w.SameGuards gs gs') :
    gs'.map Guard.state = gs.map Guard.state := by
  obtain ⟨hknown, rfl⟩ := h
  rw [List.map_map]
  refine List.map_congr_left fun g hg => ?_
  simp only [Function.comp_apply, Guard.state, isReleased_readdress (hknown g hg)]

/-- How two runs on an owner's guards are compared. -/
def holdings (w : Placements) : Comparison Entry (Holdings Heap) :=
  w.shareds.beside w.SameGuards

variable {x y : Holdings Heap}

theorem run_onGuard_none {f : GuardAction Heap Unit} {gs : List Guard} (hg : gs[k]? = none) :
    (Holdings.onGuard k f).run (gs, p) = ⟨.ok none, (gs, p), []⟩ := by
  simp only [Action.run, Holdings.onGuard, hg]

theorem run_onGuard_some {f : GuardAction Heap Unit} {gs : List Guard} (hg : gs[k]? = some g) :
    (Holdings.onGuard k f).run (gs, p) =
      ⟨(f.run (g, p)).answer.map some, (gs.set k (f.run (g, p)).state.1, (f.run (g, p)).state.2),
        (f.run (g, p)).notices⟩ := by
  simp only [Action.run, Holdings.onGuard, hg]

theorem meets_onGuard {f : GuardAction Heap Unit} (hxy : w.holdings.alike x y)
    (hf : ∀ g g', w.SameGuard g g' →
      w.guards.Meets (fun _ _ => True) (g, x.2) (g', y.2) f f) :
    w.holdings.Meets (fun r s => s = r) x y (Holdings.onGuard k f) (Holdings.onGuard k f) := by
  obtain ⟨gs, p⟩ := x
  obtain ⟨gs', q⟩ := y
  obtain ⟨⟨hknown, rfl⟩, hst⟩ := hxy
  have hget : (gs.map (Guard.readdress w.carry))[k]? = gs[k]?.map (Guard.readdress w.carry) :=
    List.getElem?_map ..
  unfold Comparison.Meets
  cases hg : gs[k]? with
  | none =>
    rw [hg, Option.map_none] at hget
    rw [run_onGuard_none hg, run_onGuard_none hget]
    exact fun _ => ⟨rfl, ⟨⟨hknown, rfl⟩, hst⟩, .nil, rfl⟩
  | some g =>
    rw [hg, Option.map_some] at hget
    rw [run_onGuard_some hg, run_onGuard_some hget]
    intro hsizes
    have hsame : w.SameGuard g (g.readdress w.carry) := ⟨hknown g (List.mem_of_getElem? hg), rfl⟩
    obtain ⟨hanswer, ⟨hguard, hshared⟩, hnotices, hcreated⟩ := hf g _ hsame hsizes
    refine ⟨?_, ⟨⟨fun g' hg' => ?_, ?_⟩, hshared⟩, hnotices, hcreated⟩
    · match (f.run (g, p)).answer, (f.run (g.readdress w.carry, q)).answer, hanswer with
      | .ok _, .ok _, _ => rfl
      | .error _, .error _, he => exact he
    · rcases List.mem_or_eq_of_mem_set hg' with hg' | rfl
      · exact hknown g' hg'
      · exact hguard.1
    · rw [hguard.2, List.map_set]

theorem meets_keep (hxy : w.holdings.alike x y) (hg : w.SameGuard g g') :
    w.holdings.Meets (fun i j => j = i) x y (Holdings.keep g) (Holdings.keep g') := by
  obtain ⟨gs, p⟩ := x
  obtain ⟨gs', q⟩ := y
  obtain ⟨⟨hknown, rfl⟩, hst⟩ := hxy
  obtain ⟨ha, rfl⟩ := hg
  refine fun _ => ⟨List.length_map _, ⟨⟨fun g' hg' => ?_, ?_⟩, hst⟩, .nil, rfl⟩
  · rcases List.mem_append.1 hg' with hg' | hg'
    · exact hknown g' hg'
    · rw [List.mem_singleton.1 hg']
      exact ha
  · show gs.map (Guard.readdress w.carry) ++ [g.readdress w.carry] =
      (gs ++ [g]).map (Guard.readdress w.carry)
    rw [List.map_append, List.map_singleton]

/-! ## Commands -/

/-- The results are the same but for the addresses. -/
abbrev SameResult (w : Placements) (r s : Result Answer) : Prop := s = r.readdress w.carry

theorem meets_act {f f' : HeapAction Answer} (hxy : w.holdings.alike x y)
    (hf : w.heaps.Meets (fun r s => s = r.readdress w.carry) x.2.managed y.2.managed f f') :
    w.holdings.Meets w.SameResult x y (Command.run owner (.act f))
      (Command.run owner (.act f')) := by
  refine (Meets.within_snd hxy (meets_onManaged hxy.2 hf)).attempt.bind fun r s x y _ hrs hxy => ?_
  refine .pure hxy ?_
  match r, s, hrs with
  | .ok _, .ok _, h => exact congrArg Result.answer h
  | .error _, .error _, h => exact congrArg Result.fault h

theorem meets_pin {prepare prepare' : HeapAction Nat} {cleanup cleanup' : HeapAction Unit}
    (hxy : w.holdings.alike x y) (hm : w.Fair m) (settings : TaskSettings)
    (hprepare : w.heaps.Meets w.SameAddress x.2.managed y.2.managed prepare prepare')
    (hcleanup : ∀ h k, w.Alike h k → w.Ends h k cleanup cleanup') :
    w.holdings.Meets w.SameResult x y (Command.run owner (.pin settings m prepare cleanup))
      (Command.run owner (.pin settings m prepare' cleanup')) := by
  refine (Meets.within_snd hxy
    (meets_establishBetween hxy.2 hm settings hprepare hcleanup)).attempt.bind
      fun r s x y _ hrs hxy => ?_
  match r, s, hrs with
  | .error _, .error _, h => exact .pure hxy (congrArg Result.fault h)
  | .ok (.error _), .ok (.error _), h => exact .pure hxy (congrArg Result.refused h)
  | .ok (.ok g), .ok (.ok g'), h =>
    refine (meets_keep hxy h).bind fun i j x y _ hij hxy => .pure hxy ?_
    rw [hij]
    rfl

theorem meets_guardResult {f : GuardAction Heap Unit} (hxy : w.holdings.alike x y)
    (hf : ∀ g g', w.SameGuard g g' →
      w.guards.Meets (fun _ _ => True) (g, x.2) (g', y.2) f f) :
    w.holdings.Meets w.SameResult x y
      (do return Command.guardResult (← Action.attempt (Holdings.onGuard k f)))
      (do return Command.guardResult (← Action.attempt (Holdings.onGuard k f))) := by
  refine (meets_onGuard hxy hf).attempt.bind fun r s x y _ hrs hxy => .pure hxy ?_
  match r, s, hrs with
  | .ok none, .ok _, h => subst h; rfl
  | .ok (some _), .ok _, h => subst h; rfl
  | .error _, .error _, h => exact congrArg Result.fault h

theorem meets_storeGuard (hxy : w.holdings.alike x y) (k : Nat) (slot : PinnedHeap.Slot) :
    w.holdings.Meets w.SameResult x y (Command.run owner (.store k slot))
      (Command.run owner (.store k slot)) :=
  meets_guardResult hxy fun _ _ hg => ends_store hg hxy.2 slot

theorem meets_releaseGuard (hxy : w.holdings.alike x y) (k : Nat) (unwinding : Bool) :
    w.holdings.Meets w.SameResult x y (Command.run owner (.release k unwinding))
      (Command.run owner (.release k unwinding)) :=
  meets_guardResult hxy fun _ _ hg => ends_release hg hxy.2 unwinding

end PinnedHeap.Heap.Placements
