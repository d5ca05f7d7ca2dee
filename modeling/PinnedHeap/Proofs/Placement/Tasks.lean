import PinnedHeap.Guard.Start
import PinnedHeap.Proofs.Guard.Exits
import PinnedHeap.Proofs.Placement.Collecting

/-!
# Pinning tasks under two placements

A manager treats two placements alike if it does the same about an address
under the one and the same address under the other. A task of such a manager
takes the same steps under both.
-/

namespace PinnedHeap

section Readdress

variable {f : Nat → Nat}

/-- The phase of a task that was ended by the fault about other addresses. -/
def Phase.readdress (f : Nat → Nat) : Phase → Phase
  | ended e => ended (e.map (Fault.readdress f))
  | p => p

/-- The task that holds another address. -/
def Task.readdress {σ : Type} (f : Nat → Nat) (t : Task σ) : Task σ :=
  { t with address := f t.address, phase := t.phase.readdress f }

/-- How the attempt to pin another address ended. -/
def Shared.Start.readdress (f : Nat → Nat) : Shared.Start → Shared.Start
  | established i => established i
  | refused r => refused (r.readdress f)
  | failed e => failed (e.map (Fault.readdress f))

@[simp] theorem Task.isReady_readdress {σ : Type} (t : Task σ) :
    (t.readdress f).isReady = t.isReady := by
  simp only [isReady, readdress]
  cases t.phase <;> rfl

@[simp] theorem Task.fault?_readdress {σ : Type} (t : Task σ) :
    (t.readdress f).fault? = t.fault?.map (Fault.readdress f) := by
  simp only [fault?, readdress]
  cases t.phase <;> rfl

end Readdress

namespace Heap.Placements

open Comparison

variable {w : Placements} {owner thread : String} {a i : Nat} {p q : Shared Heap} {t u : Task Heap}
  {m : Manager Heap}

/-- The manager does the same about the same address under either placement. -/
structure Fair (w : Placements) (m : Manager Heap) : Prop where
  retain : ∀ (thread : String) (a : Nat) (h k : Heap), w.Known a → w.Alike h k →
    w.Ends h k (m.retain thread a) (m.retain thread (w.carry a))
  unretain : ∀ (thread : String) (a : Nat) (h k : Heap), w.Known a → w.Alike h k →
    w.Ends h k (m.unretain thread a) (m.unretain thread (w.carry a))
  close : ∀ h k : Heap, w.Alike h k → w.Ends h k m.close m.close

theorem fair_unmanaged (w : Placements) : w.Fair .unmanaged where
  retain _ _ _ _ _ hst := .pure hst trivial
  unretain _ _ _ _ _ hst := .pure hst trivial
  close _ _ hst := .pure hst trivial

theorem fair_heap (w : Placements) : w.Fair (.heap .whole) where
  retain _ _ _ _ ha hst := ends_retain hst ha
  unretain _ _ _ _ ha hst := ends_unretain hst ha
  close _ _ hst := .pure hst trivial

/-- The same task under the other placement. -/
structure SameTask (w : Placements) (t u : Task Heap) : Prop where
  known : w.Known t.address
  fair : w.Fair t.manager
  eq : u = t.readdress w.carry

/-- What threads share is the same but for where buckets lie. -/
structure SharedAlike (w : Placements) (p q : Shared Heap) : Prop where
  managed : w.Alike p.managed q.managed
  cells : ∀ a, q.cells.wordAt a = w.carry (p.cells.wordAt a)
  holding : q.holding = p.holding
  tasks : q.tasks = p.tasks.map (Task.readdress w.carry)
  known : ∀ t ∈ p.tasks, w.Known t.address ∧ w.Fair t.manager
  refusal : q.refusal = p.refusal

/-- How two runs on what threads share are compared. -/
def shareds (w : Placements) : Comparison Entry (Shared Heap) where
  alike := w.SharedAlike
  fault := Fault.readdress w.carry
  notice := Entry.readdress w.carry
  row := Entry.isRow
  created? e := e.notice.created?
  created p := p.managed.created
  sizes := w.sizes

theorem meets_onManaged {α β : Type} {Q : α → β → Prop} {x : HeapAction α} {y : HeapAction β}
    (hst : w.SharedAlike p q) (h : w.heaps.Meets Q p.managed q.managed x y) :
    w.shareds.Meets Q p q (Shared.onManaged thread x) (Shared.onManaged thread y) := by
  have hsizes (ns : List Notice) :
      w.shareds.sizesIn (ns.map (Entry.mk thread)) = w.heaps.sizesIn ns :=
    List.filterMap_map ..
  unfold Comparison.Meets at *
  rw [Owner.run_onManaged, Owner.run_onManaged, hsizes]
  intro hprefix
  obtain ⟨hanswer, hstate, hnotices, hcreated⟩ := h hprefix
  refine ⟨hanswer, { hst with managed := hstate }, ?_, by rwa [hsizes]⟩
  exact hnotices.map (fun _ => rfl) fun _ => rfl

/-! ## Steps of a task -/

theorem SameTask.call {x y : HeapAction Unit} {next : Phase} (htu : w.SameTask t u)
    (hst : w.SharedAlike p q) (h : w.Ends p.managed q.managed x y)
    (hnext : next.readdress w.carry = next) :
    w.shareds.Meets w.SameTask p q (t.call x next) (u.call y next) := by
  obtain ⟨hknown, hfair, rfl⟩ := htu
  refine (meets_onManaged hst h).attempt.bind fun r r' _ _ _ hr hst => .pure hst ?_
  match r, r', hr with
  | .ok (), .ok (), _ =>
    refine ⟨hknown, hfair, ?_⟩
    simp only [Task.after, Task.readdress, hnext]
  | .error e, .error e', he =>
    subst he
    exact ⟨hknown, hfair, rfl⟩

/-- One step of a task and of the same task under the other placement. -/
theorem SameTask.step (htu : w.SameTask t u) (hst : w.SharedAlike p q) :
    w.shareds.Meets w.SameTask p q t.step u.step := by
  have hretain := htu.fair.retain t.thread t.address p.managed q.managed htu.known hst.managed
  have hunretain := htu.fair.unretain t.thread t.address p.managed q.managed htu.known hst.managed
  have hclose := htu.fair.close p.managed q.managed hst.managed
  obtain ⟨thread, address, manager, phase, established, terminate, unwound⟩ := t
  obtain ⟨hknown, hfair, rfl⟩ := htu
  have hsame : w.SameTask ⟨thread, address, manager, phase, established, terminate, unwound⟩ _ :=
    ⟨hknown, hfair, rfl⟩
  cases phase with
  | retain => exact hsame.call hst hretain rfl
  | unretain => exact hsame.call hst hunretain rfl
  | close => exact hsame.call hst hclose rfl
  | countIn =>
    refine .update_bind rfl ?_ fun _ _ _ hst => .pure hst ⟨hknown, hfair, rfl⟩
    exact { hst with holding := congrArg (· + 1) hst.holding }
  | countOut =>
    refine .update_bind rfl ?_ fun _ _ _ hst => .pure hst ⟨hknown, hfair, rfl⟩
    exact { hst with holding := congrArg (· - 1) hst.holding }
  | reportRetained => exact .note_bind rfl rfl (.pure hst ⟨hknown, hfair, rfl⟩)
  | reportVanished => exact .note_bind rfl rfl (.pure hst ⟨hknown, hfair, rfl⟩)
  | reportUnretained => exact .note_bind rfl rfl (.pure hst ⟨hknown, hfair, rfl⟩)
  | confirmPin => exact .pure hst ⟨hknown, hfair, rfl⟩
  | confirmRelease => exact .pure hst ⟨hknown, hfair, rfl⟩
  | ended e => exact .pure hst ⟨hknown, hfair, rfl⟩
  | await =>
    obtain ⟨signal, waiter⟩ := terminate
    cases signal <;> exact .pure hst ⟨hknown, hfair, rfl⟩

/-- A task changes, and its counterpart with it. -/
theorem SharedAlike.modifyTask (hst : w.SharedAlike p q) (i : Nat) {f g : Task Heap → Task Heap}
    (hf : ∀ t u, w.SameTask t u → w.SameTask (f t) (g u)) :
    w.SharedAlike (p.modifyTask i f) (q.modifyTask i g) := by
  have hsame (t : Task Heap) (ht : t ∈ p.tasks) :=
    hf t _ ⟨(hst.known t ht).1, (hst.known t ht).2, rfl⟩
  refine { hst with tasks := ?_, known := fun t ht => ?_ }
  · simp only [Shared.modifyTask, hst.tasks]
    refine List.ext_getElem? fun j => ?_
    simp only [List.getElem?_modify, List.getElem?_map]
    cases hj : p.tasks[j]? with
    | none => rfl
    | some t =>
      by_cases hij : i = j
      · simpa [hij] using (hsame t (List.mem_of_getElem? hj)).eq
      · simp [hij]
  · obtain ⟨j, hj⟩ := List.mem_iff_getElem?.1 ht
    simp only [Shared.modifyTask, List.getElem?_modify, Option.map_eq_map,
      Option.map_eq_some_iff] at hj
    obtain ⟨t', ht', rfl⟩ := hj
    have hmem := List.mem_of_getElem? ht'
    split
    · exact ⟨(hsame t' hmem).known, (hsame t' hmem).fair⟩
    · exact hst.known t' hmem

theorem SharedAlike.task? (hst : w.SharedAlike p q) (i : Nat) :
    q.tasks[i]? = p.tasks[i]?.map (Task.readdress w.carry) := by
  rw [hst.tasks, List.getElem?_map]

theorem ends_stepTask (hst : w.SharedAlike p q) (i : Nat) :
    w.shareds.Meets (fun _ _ => True) p q (Shared.stepTask i) (Shared.stepTask i) := by
  refine .read_bind ?_
  rw [hst.task? i]
  cases ht : p.tasks[i]? with
  | none => exact .pure hst trivial
  | some t =>
    have hknown := hst.known t (List.mem_of_getElem? ht)
    refine .ite (by rw [Task.isReady_readdress]) (fun _ => ?_) fun _ => .pure hst trivial
    refine (SameTask.step ⟨hknown.1, hknown.2, rfl⟩ hst).bind fun t' u' p' q' _ htu hst => ?_
    exact .update (hst.modifyTask i fun _ _ _ => htu) rfl

theorem ends_runTask (hst : w.SharedAlike p q) (i : Nat) :
    w.shareds.Meets (fun _ _ => True) p q (Shared.runTask i) (Shared.runTask i) := by
  unfold Shared.runTask
  generalize Phase.retain.stepsLeft = n
  induction n generalizing p q with
  | zero => exact .pure hst trivial
  | succ n ih => exact (ends_stepTask hst i).bind fun _ _ _ _ _ _ hst => ih hst

/-! ## Starting a task -/

theorem meets_addTask (hst : w.SharedAlike p q) (htu : w.SameTask t u) :
    w.shareds.Meets (fun i j => j = i) p q (Shared.addTask t) (Shared.addTask u) := by
  refine .read_bind (.update_bind rfl ?_ fun _ _ _ hst' => .pure hst' ?_)
  · refine { hst with tasks := ?_, known := fun t' ht' => ?_ }
    · simp only [hst.tasks, htu.eq, List.map_append, List.map_cons, List.map_nil]
    · rcases List.mem_append.1 ht' with ht' | ht'
      · exact hst.known t' ht'
      · rw [List.mem_singleton.1 ht']
        exact ⟨htu.known, htu.fair⟩
  · rw [hst.tasks, List.length_map]

theorem meets_launch (hst : w.SharedAlike p q) (hm : w.Fair m) (ha : w.Known a)
    (settings : TaskSettings) :
    w.shareds.Meets (fun r s => s = r.mapError (Refusal.readdress w.carry)) p q
      (Shared.launch owner settings m a) (Shared.launch owner settings m (w.carry a)) := by
  refine .require_bind hst Iff.rfl rfl fun _ => .read_bind ?_
  rw [hst.refusal]
  cases p.refusal settings with
  | some reason =>
    refine (meets_onManaged hst (hm.close _ _ hst.managed)).bind ?_
    exact fun _ _ _ _ _ _ hst => .pure hst rfl
  | none =>
    refine (meets_addTask hst ⟨ha, hm, rfl⟩).bind fun i j _ _ _ hij hst => .pure hst ?_
    rw [hij]
    rfl

theorem startOf_readdress (hst : w.SharedAlike p q) (i : Nat) :
    q.startOf i = (p.startOf i).readdress w.carry := by
  simp only [Shared.startOf, hst.task? i]
  cases p.tasks[i]? with
  | none => rfl
  | some t =>
    simp only [Option.map_some, Task.fault?_readdress]
    by_cases hfired : t.established.signal = .fired
    · simp [Task.readdress, hfired, Shared.Start.readdress]
    · simp [Task.readdress, hfired, Shared.Start.readdress]

theorem meets_begin (hst : w.SharedAlike p q) (hm : w.Fair m) (ha : w.Known a)
    (settings : TaskSettings) :
    w.shareds.Meets (fun r s => s = r.readdress w.carry) p q
      (Shared.begin owner settings m a) (Shared.begin owner settings m (w.carry a)) := by
  refine (meets_launch hst hm ha settings).bind fun r s p q _ hrs hst => ?_
  subst hrs
  cases r with
  | error refusal => exact .pure hst rfl
  | ok i =>
    refine (ends_runTask hst i).bind fun _ _ p q _ _ hst => .read_bind ?_
    exact .pure hst (startOf_readdress hst i)

end Heap.Placements

end PinnedHeap
