import PinnedHeap.Proofs.Guard.Exits

/-!
# The life of a guard

A guard that was made is stored and released by its owner, any number of
times and in any order, also after a call that has broken off. It has one of
three ages, and which one can be told from the calls alone: `Guard.Aged`. So
can what it has written: the first call of all binds it, if that is a store,
and the first release takes back what was published. Nothing else writes a
cell.

Between the calls of the owner anything may happen that leaves the task of the
guard as it is: it waits, and for nobody but the owner.
-/

namespace PinnedHeap.Guard

variable {σ : Type}

/-- What an owner does with its guard. To drop it is to release it. -/
inductive Call where
  | store (slot : Slot)
  | release (unwinding : Bool)

namespace Call

def isRelease : Call → Bool
  | store _ => false
  | release _ => true

/-- Carries out a call on the thread of the owner. -/
def run (owner : String) : Call → GuardAction σ Unit
  | store slot => Guard.store owner slot
  | release unwinding => Guard.release owner unwinding

end Call

/-- The guard `g₀`, shared as `p₀`, has become `g`, shared as `p`, after these calls, first one
first, some of which may have broken off. What happens elsewhere leaves its task alone. -/
inductive History (g₀ : Guard) (p₀ : Shared σ) : List Call → Guard → Shared σ → Prop where
  | made : History g₀ p₀ [] g₀ p₀
  | elsewhere {cs : List Call} {g : Guard} {p q : Shared σ} (hl : History g₀ p₀ cs g p)
      (hq : ∀ j, g₀.task = some j → q.tasks[j]? = p.tasks[j]?) : History g₀ p₀ cs g q
  | call {cs : List Call} {g : Guard} {p : Shared σ} (owner : String) (c : Call)
      (hl : History g₀ p₀ cs g p) :
      History g₀ p₀ (cs ++ [c]) ((c.run owner).run (g, p)).state.1
        ((c.run owner).run (g, p)).state.2

/-- Was the guard released by one of the calls? -/
def Released (cs : List Call) : Prop := ∃ c ∈ cs, c.isRelease = true

/-- Was the guard bound by the calls? Only the first one binds it. -/
def Binds (cs : List Call) : Prop := ∃ slot rest, cs = .store slot :: rest

variable {a j : Nat} {cs : List Call} {c : Call} {g g₀ : Guard} {p p₀ q : Shared σ}
  {thread owner : String} {manager : Manager σ} {slot : Slot} {unwinding : Bool}

theorem not_released_nil : ¬ Released [] := by
  rintro ⟨c, hc, -⟩
  cases hc

theorem released_cons_store : Released (.store slot :: cs) ↔ Released cs := by
  simp [Released, Call.isRelease]

theorem released_concat : Released (cs ++ [c]) ↔ Released cs ∨ c.isRelease = true := by
  simp [Released, or_and_right, exists_or]

/-! ## The ages of a guard -/

/-- The guard of the address `a` and the task `j`, after these calls. -/
inductive Aged (a j : Nat) : List Call → Guard → Prop where
  | fresh : Aged a j [] (of a j)
  | stored {slot : Slot} {cs : List Call} (hr : ¬ Released cs) :
      Aged a j (.store slot :: cs) { of a j with bound := true, slot := some slot }
  | released {cs : List Call} {b : Bool} (hr : Released cs) (hb : b = true ↔ Binds cs) :
      Aged a j cs { (of a j).spent with bound := b }

theorem binds_concat_of_ne (hne : cs ≠ []) : Binds (cs ++ [c]) ↔ Binds cs := by
  cases cs with
  | nil => exact absurd rfl hne
  | cons d cs => simp [Binds]

/-- A call on a guard that has been released is as if it were none. -/
theorem Aged.concat_released (hg : Aged a j cs g) (hr : Released cs) (c : Call) :
    Aged a j (cs ++ [c]) g := by
  have hne : cs ≠ [] := by
    rintro rfl
    exact not_released_nil hr
  cases hg with
  | fresh => exact absurd hr not_released_nil
  | stored hr' => exact absurd (released_cons_store.1 hr) hr'
  | released _ hb =>
    exact .released (released_concat.2 (.inl hr)) (hb.trans (binds_concat_of_ne hne).symm)

/-! ## What is written -/

/-- What one more call writes, and through which slot. -/
def due (a : Nat) : List Call → Call → List (Slot × Nat)
  | [], .store slot => [(slot, a)]
  | .store slot :: cs, .release _ => if cs.any Call.isRelease then [] else [(slot, 0)]
  | _, _ => []

/-- What all calls have written. -/
def written (a : Nat) : List Call → List (Slot × Nat)
  | .store slot :: cs => (slot, a) :: if cs.any Call.isRelease then [(slot, 0)] else []
  | _ => []

/-- The cells after these writes, first one first. -/
def writeAll (ws : List (Slot × Nat)) (cells : Cells) : Cells :=
  ws.foldl (fun cells w => w.1.write w.2 cells) cells

theorem any_isRelease_iff : cs.any Call.isRelease = true ↔ Released cs := List.any_eq_true

theorem due_of_released (hr : Released cs) (a : Nat) (c : Call) : due a cs c = [] := by
  match cs, c with
  | [], _ => exact absurd hr not_released_nil
  | .release u :: cs, c => rfl
  | .store slot :: cs, .store slot' => rfl
  | .store slot :: cs, .release u =>
    rw [due, if_pos (any_isRelease_iff.2 (released_cons_store.1 hr))]

theorem written_concat (a : Nat) (cs : List Call) (c : Call) :
    written a (cs ++ [c]) = written a cs ++ due a cs c := by
  match cs, c with
  | [], .store slot => rfl
  | [], .release unwinding => rfl
  | .release u :: cs, c => rfl
  | .store slot :: cs, .store slot' => simp [written, due, Call.isRelease]
  | .store slot :: cs, .release unwinding =>
    by_cases hr : cs.any Call.isRelease = true
    · simp [written, due, hr]
    · simp [written, due, hr, Call.isRelease]

/-- At most one cell is written: with the address, and then perhaps with zero. -/
theorem written_cases (a : Nat) (cs : List Call) :
    written a cs = [] ∨ ∃ slot, written a cs = [(slot, a)] ∨
      written a cs = [(slot, a), (slot, 0)] := by
  match cs with
  | [] => exact .inl rfl
  | .release u :: cs => exact .inl rfl
  | .store slot :: cs =>
    by_cases hr : cs.any Call.isRelease = true
    · exact .inr ⟨slot, .inr (by simp [written, hr])⟩
    · exact .inr ⟨slot, .inl (by simp [written, hr])⟩

/-- Zero is written as soon as a bound guard is released, and not before. -/
theorem zero_mem_written_iff (ha : a ≠ 0) :
    (∃ slot, (slot, 0) ∈ written a cs) ↔ Binds cs ∧ Released cs := by
  match cs with
  | [] => exact iff_of_false nofun fun h => not_released_nil h.2
  | .release u :: cs => exact iff_of_false nofun fun h => nomatch h.1
  | .store slot :: cs =>
    have hb : Binds (.store slot :: cs) := ⟨slot, cs, rfl⟩
    rw [released_cons_store, and_iff_right hb, ← any_isRelease_iff]
    cases hr : cs.any Call.isRelease <;> simp [written, hr, ha.symm]

/-! ## One call -/

/-- What comes of publishing through a slot. -/
structure Stores (g : Guard) (slot : Slot) (p : Shared σ)
    (out : Outcome Entry (Guard × Shared σ) Unit) : Prop where
  bound : g.bound = true → out = ⟨.error (.alreadyBound g.address), (g, p), []⟩
  inert : g.bound = false → g.address = 0 → out = ⟨.ok (), (g, p), []⟩
  publishes : g.bound = false → g.address ≠ 0 →
    out.answer = .ok () ∧
      out.state = ({ g with bound := true, slot := some slot },
        { p with cells := slot.write g.address p.cells })

/-- What comes of a release, which is none if the guard is released already. The only fault is
the one that the manager met in taking the address back. -/
structure LetsGo (thread : String) (manager : Manager σ) (unwinding : Bool) (g : Guard)
    (p : Shared σ) (out : Outcome Entry (Guard × Shared σ) Unit) : Prop where
  again : g.address = 0 → out = ⟨.ok (), (g, p), []⟩
  first : g.address ≠ 0 →
    out.state.1 = g.spent ∧ out.state.2.cells = p.cells.takeBack g.slot
  fault : ∀ e, out.answer = .error e → g.address ≠ 0 ∧ unwinding = false ∧
    ((manager.unretain thread g.address).run p.managed).answer = .error e

theorem stores (owner : String) (slot : Slot) (g : Guard) (p : Shared σ) :
    Stores g slot p ((store owner slot).run (g, p)) where
  bound := Owner.run_store_bound
  inert := Owner.run_store_released
  publishes hb ha := by
    have hrun : ∃ ns, (store owner slot).run (g, p) =
        ⟨.ok (), ({ g with bound := true, slot := some slot },
          { p with cells := slot.write g.address p.cells }), ns⟩ := Owner.run_store hb ha
    obtain ⟨ns, hrun⟩ := hrun
    rw [hrun]
    exact ⟨rfl, rfl⟩

namespace Releases

variable {out : Outcome Entry (Guard × Shared σ) Unit}

theorem guard (h : Releases owner thread unwinding manager g j p out) : out.state.1 = g.spent := by
  cases h <;> rfl

theorem cells (h : Releases owner thread unwinding manager g j p out) :
    out.state.2.cells = p.cells.takeBack g.slot := by
  cases h <;> rfl

/-- The owner meets no fault but that of the manager, and none if it is failing already. -/
theorem fault (h : Releases owner thread unwinding manager g j p out) {e : Fault}
    (he : out.answer = .error e) :
    unwinding = false ∧ ((manager.unretain thread g.address).run p.managed).answer = .error e := by
  cases h with
  | unretainFails hm =>
    cases unwinding with
    | true => cases he
    | false =>
      rw [hm]
      exact ⟨rfl, he⟩
  | closeFails hm hc => cases he
  | released hm hc => cases he

end Releases

/-- The task of a guard that is not released waits, and holds the address of the guard. -/
def Waits (thread : String) (manager : Manager σ) (g : Guard) (p : Shared σ) : Prop :=
  g.address ≠ 0 → ∃ j, g.task = some j ∧ p.tasks[j]? = some (.waiting thread g.address manager)

theorem letsGo (owner : String) (unwinding : Bool) (hw : Waits thread manager g p) :
    LetsGo thread manager unwinding g p ((release owner unwinding).run (g, p)) := by
  by_cases ha : g.address = 0
  · rw [Guard.run_release_again ha]
    exact ⟨fun _ => rfl, fun h => absurd ha h, nofun⟩
  · obtain ⟨j, hj, ht⟩ := hw ha
    have hrel := releases owner unwinding ha hj ht
    exact ⟨fun h => absurd h ha, fun _ => ⟨hrel.guard, hrel.cells⟩, fun e he => ⟨ha, hrel.fault he⟩⟩

/-- The guard after the call, and the cells; the task of a guard that is not released is left
alone. -/
structure Passes (a j : Nat) (cs : List Call) (c : Call) (p : Shared σ)
    (out : Outcome Entry (Guard × Shared σ) Unit) : Prop where
  aged : Aged a j (cs ++ [c]) out.state.1
  cells : out.state.2.cells = writeAll (due a cs c) p.cells
  task : ¬ Released (cs ++ [c]) → out.state.2.tasks[j]? = p.tasks[j]?

namespace Passes

theorem of_released (hg : Aged a j cs g) (hr : Released cs) {r : Except Fault Unit}
    {ns : List Entry} : Passes a j cs c p ⟨r, (g, p), ns⟩ where
  aged := hg.concat_released hr c
  cells := by
    rw [due_of_released hr]
    rfl
  task _ := rfl

theorem of_stores {out : Outcome Entry (Guard × Shared σ) Unit} (h : Stores g slot p out)
    (hg : Aged a j cs g) (ha : a ≠ 0) : Passes a j cs (.store slot) p out := by
  cases hg with
  | fresh =>
    have hstate := (h.publishes rfl ha).2
    refine ⟨?_, ?_, fun _ => ?_⟩ <;> rw [hstate]
    · exact .stored not_released_nil
    · rfl
  | @stored slot' cs hr =>
    have hr' : ¬ Released (cs ++ [.store slot]) := fun h => (released_concat.1 h).elim hr nofun
    rw [h.bound rfl]
    exact ⟨.stored hr', rfl, fun _ => rfl⟩
  | @released cs b hr hb =>
    cases b with
    | true =>
      rw [h.bound rfl]
      exact .of_released (.released hr hb) hr
    | false =>
      rw [h.inert rfl rfl]
      exact .of_released (.released hr hb) hr

theorem of_letsGo {out : Outcome Entry (Guard × Shared σ) Unit}
    (h : LetsGo thread manager unwinding g p out) (hg : Aged a j cs g) (ha : a ≠ 0) :
    Passes a j cs (.release unwinding) p out := by
  have hreleased : Released (cs ++ [.release unwinding]) := released_concat.2 (.inr rfl)
  cases hg with
  | fresh =>
    obtain ⟨hspent, hcells⟩ := h.first ha
    refine ⟨?_, hcells, fun h => absurd hreleased h⟩
    rw [hspent]
    exact .released hreleased (iff_of_false nofun nofun)
  | @stored slot cs hr =>
    obtain ⟨hspent, hcells⟩ := h.first ha
    refine ⟨?_, ?_, fun h => absurd hreleased h⟩
    · rw [hspent]
      exact .released hreleased (iff_of_true rfl ⟨_, _, rfl⟩)
    · rw [hcells, due, if_neg fun h => hr (any_isRelease_iff.1 h)]
      rfl
  | released hr hb =>
    rw [h.again rfl]
    exact .of_released (.released hr hb) hr

end Passes

theorem Aged.waits (hg : Aged a j cs g)
    (ht : ¬ Released cs → p.tasks[j]? = some (.waiting thread a manager)) :
    Waits thread manager g p := by
  intro hne
  cases hg with
  | fresh => exact ⟨j, rfl, ht not_released_nil⟩
  | stored hr => exact ⟨j, rfl, ht fun h => hr (released_cons_store.1 h)⟩
  | released => exact absurd rfl hne

theorem passes (hg : Aged a j cs g) (ha : a ≠ 0) (hw : Waits thread manager g p) (owner : String)
    (c : Call) : Passes a j cs c p ((c.run owner).run (g, p)) := by
  cases c with
  | store slot => exact .of_stores (stores owner slot g p) hg ha
  | release unwinding => exact .of_letsGo (letsGo owner unwinding hw) hg ha

/-! ## A whole life -/

/-- What is so after any history: the guard has one of the three ages, and as long as it is not
released its task waits. -/
theorem History.aged (hl : History (of a j) p₀ cs g p) (ha : a ≠ 0)
    (ht : p₀.tasks[j]? = some (.waiting thread a manager)) :
    Aged a j cs g ∧ (¬ Released cs → p.tasks[j]? = some (.waiting thread a manager)) := by
  induction hl with
  | made => exact ⟨.fresh, fun _ => ht⟩
  | elsewhere hl hq ih => exact ⟨ih.1, fun hr => (hq j rfl).trans (ih.2 hr)⟩
  | call owner c hl ih =>
    have hpass := passes ih.1 ha (ih.1.waits ih.2) owner c
    refine ⟨hpass.aged, fun hr => ?_⟩
    rw [hpass.task hr]
    exact ih.2 fun h => hr (released_concat.2 (.inl h))

/-- A guard that was made is a new one, and its task waits. -/
theorem of_establishBetween {settings : TaskSettings} {prepare : Action Notice σ Nat}
    {cleanup : Action Notice σ Unit} {ns : List Entry}
    (hmade : (establishBetween owner settings manager prepare cleanup).run q =
      ⟨.ok (.ok g), p, ns⟩) :
    ∃ a j, g = of a j ∧ p.tasks[j]? = some (.waiting settings.name a manager) := by
  rcases hprepare : prepare.run q.managed with ⟨e | a, m, ls⟩
  · rw [run_establishBetween_of_error hprepare] at hmade
    cases hmade
  · have hest := establishes owner settings manager a { q with managed := m }
    rcases hout : (establish owner settings manager a).run { q with managed := m } with ⟨r, q', ns'⟩
    rw [hout] at hest
    rcases hclean : cleanup.run q'.managed with ⟨c, m', ls'⟩
    rcases hover : (handOver owner r c).run { q' with managed := m' } with ⟨made, p', ns''⟩
    rw [run_establishBetween hprepare hout hclean hover] at hmade
    cases hmade
    obtain ⟨rfl, rfl, rfl⟩ := handOver_ok hover
    cases hest with
    | made hn hr hm => exact ⟨a, _, rfl, List.getElem?_concat_length⟩

/-- A guard after these calls, whose task runs on the thread `thread`. -/
structure Stands (thread : String) (manager : Manager σ) (a : Nat) (cs : List Call) (g : Guard)
    (p : Shared σ) : Prop where
  /-- It has its task exactly as long as it has its address. -/
  tasked : g.address ≠ 0 ↔ g.task.isSome = true
  waits : Waits thread manager g p
  address : g.address = 0 ∨ g.address = a
  released : g.address = 0 ↔ Released cs
  /-- A slot that it remembers has been bound and is still to be cleared. -/
  slotted : g.slot.isSome = true → g.bound = true ∧ g.address ≠ 0
  bound : g.bound = true ↔ Binds cs
  /-- At most one cell has been written: with the address, and then perhaps with zero. -/
  writes : written a cs = [] ∨ ∃ slot, written a cs = [(slot, a)] ∨
    written a cs = [(slot, a), (slot, 0)]
  /-- Zero has been written if the guard was bound and is released, and only then. -/
  cleared : (∃ slot, (slot, 0) ∈ written a cs) ↔ g.bound = true ∧ g.address = 0

theorem Aged.released_iff (hg : Aged a j cs g) (ha : a ≠ 0) : g.address = 0 ↔ Released cs := by
  cases hg with
  | fresh => exact iff_of_false ha not_released_nil
  | stored hr => exact iff_of_false ha fun h => hr (released_cons_store.1 h)
  | released hr => exact iff_of_true rfl hr

theorem Aged.bound_iff (hg : Aged a j cs g) : g.bound = true ↔ Binds cs := by
  cases hg with
  | fresh => exact iff_of_false nofun nofun
  | stored hr => exact iff_of_true rfl ⟨_, _, rfl⟩
  | released _ hb => exact hb

theorem Aged.stands (hg : Aged a j cs g) (ha : a ≠ 0) (hw : Waits thread manager g p) :
    Stands thread manager a cs g p where
  tasked := by
    cases hg with
    | released => exact iff_of_false (absurd rfl) nofun
    | _ => exact iff_of_true ha rfl
  waits := hw
  address := by
    cases hg with
    | released => exact .inl rfl
    | _ => exact .inr rfl
  released := hg.released_iff ha
  slotted hs := by
    cases hg with
    | stored => exact ⟨rfl, ha⟩
    | _ => cases hs
  bound := hg.bound_iff
  writes := written_cases a cs
  cleared := by rw [hg.bound_iff, hg.released_iff ha, zero_mem_written_iff ha]

/-- What one more call does to a guard after these calls. -/
structure Proceeds (thread : String) (manager : Manager σ) (a : Nat) (cs : List Call) (g : Guard)
    (p : Shared σ) (owner : String) (c : Call) : Prop where
  call : match c with
    | .store slot => Stores g slot p ((c.run owner).run (g, p))
    | .release unwinding => LetsGo thread manager unwinding g p ((c.run owner).run (g, p))
  /-- A guard that is bound stays bound. -/
  bound : g.bound = true → ((c.run owner).run (g, p)).state.1.bound = true
  /-- Whatever stands in the cells, the call writes what is due and nothing else. -/
  cells : ∀ cells, ((c.run owner).run (g, { p with cells })).state.2.cells =
    writeAll (due a cs c) cells
  writes : written a (cs ++ [c]) = written a cs ++ due a cs c

theorem Aged.proceeds (hg : Aged a j cs g) (ha : a ≠ 0) (hw : Waits thread manager g p)
    (owner : String) (c : Call) : Proceeds thread manager a cs g p owner c where
  call := by
    cases c with
    | store slot => exact stores owner slot g p
    | release unwinding => exact letsGo owner unwinding hw
  bound hb := by
    obtain ⟨slot, rest, rfl⟩ := hg.bound_iff.1 hb
    exact (passes hg ha hw owner c).aged.bound_iff.2 ⟨slot, rest ++ [c], rfl⟩
  cells cells := (passes (p := { p with cells }) hg ha hw owner c).cells
  writes := written_concat a cs c

/-- After any calls of its owner the guard has its task exactly as long as it has its address, and
a slot only while it is bound and not released. It stays bound once it is; a store fails exactly
if it is, and then changes nothing; so does a store or a release after the first release, also if
that one failed. At most one cell is written: with the address, and by the first release with
zero. -/
theorem History.life_cycle {settings : TaskSettings} {prepare : Action Notice σ Nat}
    {cleanup : Action Notice σ Unit} {ns : List Entry}
    (hmade : (establishBetween owner settings manager prepare cleanup).run q =
      ⟨.ok (.ok g₀), p₀, ns⟩)
    (ha : g₀.address ≠ 0) (hl : History g₀ p₀ cs g p) :
    Stands settings.name manager g₀.address cs g p ∧
      ∀ (owner : String) (c : Call),
        Proceeds settings.name manager g₀.address cs g p owner c := by
  obtain ⟨a, j, rfl, ht⟩ := of_establishBetween hmade
  obtain ⟨hg, ht⟩ := hl.aged ha ht
  have hw := hg.waits ht
  exact ⟨hg.stands ha hw, hg.proceeds ha hw⟩

/-- A manager that takes no address back. -/
def keeping : Manager Unit :=
  { Manager.unmanaged with unretain := fun _ _ => Action.fail (.refused "not taken back") }

/-- A guard whose manager takes no address back is stored and then released. The release fails,
but it has cleared the cell, and nothing comes of what is called after it. -/
theorem failed_release_ends_life :
    ∃ (slot : Slot) (g₁ g₂ : Guard) (p₀ p₁ p₂ : Shared Unit) (ns : List Entry),
      (establishBetween "main" {} keeping (pure 64) (pure ())).run (.start ()) =
          ⟨.ok (.ok (of 64 0)), p₀, ns⟩ ∧
        History (of 64 0) p₀ [.store slot] g₁ p₁ ∧
        History (of 64 0) p₀ [.store slot, .release false] g₂ p₂ ∧
        ((release "main" false).run (g₁, p₁)).answer = .error (.refused "not taken back") ∧
        slot.read p₁.cells = 64 ∧ slot.read p₂.cells = 0 ∧
        (store "main" slot).run (g₂, p₂) = ⟨.error (.alreadyBound g₂.address), (g₂, p₂), []⟩ ∧
        (release "main" false).run (g₂, p₂) = ⟨.ok (), (g₂, p₂), []⟩ := by
  let out := (establishBetween "main" {} keeping (pure 64) (pure ())).run (.start ())
  have hanswer : out.answer = .ok (.ok (of 64 0)) := by decide +kernel
  have hmade : out = ⟨.ok (.ok (of 64 0)), out.state, out.notices⟩ := by rw [← hanswer]
  let slot : Slot := ⟨4096, by decide, by decide⟩
  have hnew : History (of 64 0) out.state [] (of 64 0) out.state := .made
  have hstored := hnew.call "main" (.store slot)
  have hreleased := hstored.call "main" (.release false)
  obtain ⟨hstands, hnext⟩ := History.life_cycle hmade (by decide) hreleased
  refine ⟨slot, _, _, _, _, _, _, hmade, hstored, hreleased, ?_, ?_, ?_,
    (hnext "main" (.store slot)).call.bound (hstands.bound.2 ⟨slot, _, rfl⟩),
    (hnext "main" (.release false)).call.again (hstands.released.2 ⟨.release false, ?_, rfl⟩)⟩
  · decide +kernel
  · decide +kernel
  · decide +kernel
  · simp

end PinnedHeap.Guard
