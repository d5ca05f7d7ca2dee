import PinnedHeap.Proofs.Guard.Protocol

/-!
# Published addresses

A guard publishes its address in a foreign cell. If every cell is one guard's
own, the cell is `Published` from then on, with the guard's task behind it,
until the release withdraws the address; after that the cell stays `Withdrawn`
and is zero. Withdrawing comes before the task is told to stop, so whoever
reads the cell never sees an address that is not held.
-/

namespace PinnedHeap

variable {σ ρ : Type}

namespace Owner

variable {w w' : Owner σ ρ} {p p' : Shared σ}

/-- The owner is going to store a guard in the slot, or has. -/
def Uses (w : Owner σ ρ) (k : Nat) (slot : Slot) : Prop :=
  .store k slot ∈ w.program ∨ ∃ g, w.guards[k]? = some g ∧ g.slot = some slot

/-- What a step does to one of the guards and to the cells. -/
inductive Handles (w : Owner σ ρ) (p p' : Shared σ) (k : Nat) (g : Guard) : Guard → Prop where
  | spared (hc : p'.cells = p.cells) : Handles w p p' k g g
  | wroteElsewhere {j v : Nat} {slot : Slot} (hj : j ≠ k) (hu : w.Uses j slot)
      (hc : p'.cells = slot.write v p.cells) : Handles w p p' k g g
  | stored {slot : Slot} (hb : g.bound = false) (ha : g.address ≠ 0)
      (hp : .store k slot ∈ w.program) (hc : p'.cells = slot.write g.address p.cells) :
      Handles w p p' k g { g with bound := true, slot := some slot }
  | unpinned (hc : p'.cells = p.cells) : Handles w p p' k g { g with address := 0 }
  | cleared {slot : Slot} (hslot : g.slot = some slot) (hc : p'.cells = slot.write 0 p.cells) :
      Handles w p p' k g { g with slot := none }
  | told {a : Nat} {unwinding : Bool} (hs : w.stage = .telling k a unwinding)
      (hc : p'.cells = p.cells) : Handles w p p' k g { g with task := none }

theorem getElem?_set_cases {gs : List Guard} {k j : Nat} {g x : Guard} (hg : gs[k]? = some g)
    (hx : gs[j]? = some x) (y : Guard) :
    (j = k ∧ x = g ∧ (gs.set j y)[k]? = some y) ∨ (j ≠ k ∧ (gs.set j y)[k]? = some g) := by
  by_cases hj : j = k
  · subst hj
    rw [hg] at hx
    cases hx
    exact .inl ⟨rfl, rfl, getElem?_set_self_of_some hg y⟩
  · exact .inr ⟨hj, by rw [List.getElem?_set_ne hj, hg]⟩

theorem Steps.handles (h : Steps w p w' p') {k : Nat} {g : Guard} (hg : w.guards[k]? = some g) :
    ∃ g', w'.guards[k]? = some g' ∧ Handles w p p' k g g' := by
  cases h with
  | @store j slot program x hs hp hx hb ha =>
    rcases getElem?_set_cases hg hx { x with bound := true, slot := some slot } with
      ⟨rfl, rfl, hset⟩ | ⟨hj, hset⟩
    · exact ⟨_, hset, .stored hb ha (hp ▸ List.mem_cons_self) rfl⟩
    · exact ⟨g, hset, .wroteElsewhere hj (.inl (hp ▸ List.mem_cons_self)) rfl⟩
  | @release j unwinding program x hs hp hx ha =>
    rcases getElem?_set_cases hg hx { x with address := 0 } with ⟨-, rfl, hset⟩ | ⟨hj, hset⟩
    · exact ⟨_, hset, .unpinned rfl⟩
    · exact ⟨g, hset, .spared rfl⟩
  | @clear j a unwinding x slot hs hx hslot =>
    rcases getElem?_set_cases hg hx { x with slot := none } with ⟨-, rfl, hset⟩ | ⟨hj, hset⟩
    · exact ⟨_, hset, .cleared hslot rfl⟩
    · exact ⟨g, hset, .wroteElsewhere hj (.inr ⟨x, hx, hslot⟩) rfl⟩
  | @tell j a unwinding x i hs hx ht =>
    rcases getElem?_set_cases hg hx { x with task := none } with ⟨rfl, rfl, hset⟩ | ⟨hj, hset⟩
    · exact ⟨_, hset, .told hs rfl⟩
    · exact ⟨g, hset, .spared rfl⟩
  | made hs hc =>
    refine ⟨g, ?_, .spared rfl⟩
    exact (List.getElem?_append_left (List.getElem?_eq_some_iff.1 hg).1).trans hg
  | _ => exact ⟨g, hg, .spared rfl⟩

/-- An owner writes no cells but those of its guards. -/
theorem Steps.cells (h : Steps w p w' p') :
    p'.cells = p.cells ∨ ∃ k slot v, w.Uses k slot ∧ p'.cells = slot.write v p.cells := by
  cases h with
  | @store k slot program g hs hp hg hb ha =>
    exact .inr ⟨k, slot, g.address, .inl (hp ▸ List.mem_cons_self), rfl⟩
  | @clear k a unwinding g slot hs hg hslot =>
    exact .inr ⟨k, slot, 0, .inr ⟨g, hg, hslot⟩, rfl⟩
  | _ => exact .inl rfl

/-- A guard that is there after a step was there before, or is new. -/
theorem Steps.guard (h : Steps w p w' p') {k : Nat} {g' : Guard} (hg : w'.guards[k]? = some g') :
    (∃ g, w.guards[k]? = some g ∧ Handles w p p' k g g') ∨
      ∃ cleanup, w.stage = .cleaningUp (.ok (.ok g')) cleanup := by
  cases hk : w.guards[k]? with
  | some g =>
    obtain ⟨x, hx, hhandles⟩ := h.handles hk
    rw [hg] at hx
    cases hx
    exact .inl ⟨g, rfl, hhandles⟩
  | none =>
    have hset : ∀ {j : Nat} {y : Guard}, (w.guards.set j y)[k]? ≠ some g' := by
      intro j y hy
      rw [List.getElem?_eq_none (by simpa using List.getElem?_eq_none_iff.1 hk)] at hy
      cases hy
    cases h with
    | store hs hp hx hb ha => exact absurd hg hset
    | release hs hp hx ha => exact absurd hg hset
    | clear hs hx hslot => exact absurd hg hset
    | tell hs hx ht => exact absurd hg hset
    | @made cleanup g hs hc =>
      rcases getElem?_append_singleton hg with hg | ⟨-, rfl⟩
      · rw [hk] at hg
        cases hg
      · exact .inr ⟨cleanup, hs⟩
    | _ =>
      have hg : w.guards[k]? = some g' := hg
      rw [hk] at hg
      cases hg

/-- A step brings no new use of a slot about. -/
theorem Steps.uses (h : Steps w p w' p') (hw : w.Orderly p) {k : Nat} {slot : Slot}
    (hu : w'.Uses k slot) : w.Uses k slot := by
  rcases hu with hmem | ⟨g', hg', hslot⟩
  · exact .inl (h.program hmem)
  · rcases h.guard hg' with ⟨g, hg, hhandles⟩ | ⟨cleanup, hs⟩
    · cases hhandles with
      | spared hc => exact .inr ⟨_, hg, hslot⟩
      | wroteElsewhere hj hu hc => exact .inr ⟨_, hg, hslot⟩
      | stored hb ha hp hc =>
        cases hslot
        exact .inl hp
      | unpinned hc => exact .inr ⟨_, hg, hslot⟩
      | cleared hold hc => cases hslot
      | told hs hc => exact .inr ⟨_, hg, hslot⟩
    · have hstage := hw.stage
      rw [hs] at hstage
      rw [hstage.2] at hslot
      cases hslot

end Owner

theorem Task.Steps.cells {v v' : Task σ} {p p' : Shared σ} (h : Task.Steps v p v' p') :
    p'.cells = p.cells := by
  cases h <;> rfl

namespace Threads

variable {s t u : Threads σ ρ} {owns : Nat → Nat × Nat}

/-- Every cell that is ever written is one guard's own: that of one owner, with one
number. -/
def Assigned (owns : Nat → Nat × Nat) (s : Threads σ ρ) : Prop :=
  ∀ (i : Nat) (w : Owner σ ρ), s.owners[i]? = some w →
    ∀ k slot, w.Uses k slot → owns slot.address = (i, k)

/-- Guard `k` of owner `i`. -/
def guard? (s : Threads σ ρ) (i k : Nat) : Option Guard := s.owners[i]?.bind fun w => w.guards[k]?

theorem guard?_eq_some {i k : Nat} {g : Guard} :
    s.guard? i k = some g ↔ ∃ w, s.owners[i]? = some w ∧ w.guards[k]? = some g :=
  Option.bind_eq_some_iff

theorem Moves.assigned {a : Actor} (h : Moves s a t) (hs : s.Orderly) (hown : s.Assigned owns) :
    t.Assigned owns := by
  intro i w hw k slot hu
  cases h with
  | @owner j v v' p ns hv h =>
    rcases getElem?_set_eq_some hv hw with ⟨rfl, rfl⟩ | ⟨-, hw⟩
    · exact hown i v hv k slot (h.uses (hs.owner i v hv) hu)
    · exact hown i w hw k slot hu
  | task hx h => exact hown i w hw k slot hu

theorem Reaches.assigned (h : Reaches s t) (hs : s.Orderly) (hown : s.Assigned owns) :
    t.Assigned owns := by
  induction h with
  | refl s => exact hown
  | step a h rest ih =>
    have hmove := moves_of_step? h
    exact ih (hmove.orderly hs) (hmove.assigned hs hown)

/-- The guard's address is in the cell, and its task `j` is behind it. -/
structure Published (s : Threads σ ρ) (i k : Nat) (slot : Slot) (a j : Nat) (g : Guard) : Prop where
  guard : s.guard? i k = some g
  cell : slot.read s.shared.cells = a
  stored : g.slot = some slot
  task : g.task = some j
  backed : g.Backed s.shared a

/-- The cell is zero, and the guard has lost its slot. -/
structure Withdrawn (s : Threads σ ρ) (i k : Nat) (slot : Slot) (g : Guard) : Prop where
  guard : s.guard? i k = some g
  cell : slot.read s.shared.cells = 0
  bound : g.bound = true
  slotless : g.slot = none

/-- What a step does to a guard and to a cell that is its own. -/
inductive Tends (s : Threads σ ρ) (i k : Nat) (slot : Slot) (g : Guard) (t : Threads σ ρ) :
    Guard → Prop where
  | spared (hc : slot.read t.shared.cells = slot.read s.shared.cells) : Tends s i k slot g t g
  | stored {slot' : Slot} (hb : g.bound = false) (ha : g.address ≠ 0)
      (hc : slot'.read t.shared.cells = g.address) :
      Tends s i k slot g t { g with bound := true, slot := some slot' }
  | unpinned (hc : slot.read t.shared.cells = slot.read s.shared.cells) :
      Tends s i k slot g t { g with address := 0 }
  | cleared {slot' : Slot} (hslot : g.slot = some slot')
      (hc : slot'.read t.shared.cells = 0) : Tends s i k slot g t { g with slot := none }
  | told {w : Owner σ ρ} {a : Nat} {unwinding : Bool} (hw : s.owners[i]? = some w)
      (hg : w.guards[k]? = some g) (hs : w.stage = .telling k a unwinding)
      (hc : slot.read t.shared.cells = slot.read s.shared.cells) :
      Tends s i k slot g t { g with task := none }

theorem read_write_of_ne {slot slot' : Slot} {v : Nat} {c : Cells}
    (h : slot.address ≠ slot'.address) : slot.read (slot'.write v c) = slot.read c :=
  Cells.wordAt_write_of_ne h

theorem Moves.tends {x : Actor} (h : Moves s x t) (hown : s.Assigned owns) {i k : Nat}
    {slot : Slot} (hcell : owns slot.address = (i, k)) {g : Guard} (hg : s.guard? i k = some g) :
    ∃ g', t.guard? i k = some g' ∧ Tends s i k slot g t g' := by
  obtain ⟨w, hw, hwg⟩ := guard?_eq_some.1 hg
  -- whoever else writes a cell writes another one
  have hother : ∀ {i' k' v : Nat} {w' : Owner σ ρ} {slot' : Slot}, s.owners[i']? = some w' →
      w'.Uses k' slot' → (i' ≠ i ∨ k' ≠ k) →
      slot.read (slot'.write v s.shared.cells) = slot.read s.shared.cells := by
    intro i' k' v w' slot' hw' hu hne
    apply read_write_of_ne
    intro heq
    have hassigned := hown i' w' hw' k' slot' hu
    rw [← heq, hcell, Prod.mk.injEq] at hassigned
    omega
  cases h with
  | task hx h =>
    refine ⟨g, hg, .spared ?_⟩
    show slot.read _ = _
    rw [Shared.modifyTask, h.cells]
  | @owner i' w₁ w₂ p ns hw₁ h =>
    by_cases hi : i' = i
    · subst hi
      rw [hw] at hw₁
      cases hw₁
      obtain ⟨g', hg', hhandles⟩ := h.handles hwg
      refine ⟨g', ?_, ?_⟩
      · exact guard?_eq_some.2 ⟨w₂, getElem?_set_self_of_some hw w₂, hg'⟩
      · cases hhandles with
        | spared hc => exact .spared (by rw [hc])
        | wroteElsewhere hj hu hc =>
          refine .spared ?_
          rw [hc]
          exact hother hw hu (.inr hj)
        | stored hb ha hp hc =>
          refine .stored hb ha ?_
          rw [hc]
          exact Cells.wordAt_write_self _ _ _
        | unpinned hc => exact .unpinned (by rw [hc])
        | cleared hslot hc =>
          refine .cleared hslot ?_
          rw [hc]
          exact Cells.wordAt_write_self _ _ _
        | told hs hc => exact .told hw hwg hs (by rw [hc])
    · refine ⟨g, ?_, .spared ?_⟩
      · exact guard?_eq_some.2 ⟨w, by rw [List.getElem?_set_ne hi, hw], hwg⟩
      · rcases h.cells with hc | ⟨k', slot', v, hu, hc⟩
        · rw [hc]
        · rw [hc]
          exact hother hw₁ hu (.inl hi)

/-- A published address stays published, or is withdrawn. -/
theorem Moves.published {x : Actor} (h : Moves s x t) (hs : s.Orderly) (hown : s.Assigned owns)
    {i k a j : Nat} {slot : Slot} (hcell : owns slot.address = (i, k)) {g : Guard}
    (hp : s.Published i k slot a j g) :
    ∃ g', t.Published i k slot a j g' ∨ t.Withdrawn i k slot g' := by
  obtain ⟨g', hg', htends⟩ := h.tends hown hcell hp.guard
  have hback : ∀ {y : Guard}, y.task = g.task → y.Backed t.shared a :=
    fun hy => hp.backed.mono h.grows hy
  obtain ⟨w, hw, hwg⟩ := guard?_eq_some.1 hp.guard
  obtain ⟨hbound, hclearing⟩ := (hs.owner i w hw).slot k g slot hwg hp.stored
  refine ⟨g', ?_⟩
  cases htends with
  | spared hc => exact .inl ⟨hg', hc.trans hp.cell, hp.stored, hp.task, hback rfl⟩
  | stored hb ha hc =>
    rw [hbound] at hb
    cases hb
  | unpinned hc => exact .inl ⟨hg', hc.trans hp.cell, hp.stored, hp.task, hback rfl⟩
  | cleared hslot hc =>
    rw [hp.stored] at hslot
    cases hslot
    exact .inr ⟨hg', hc, hbound, rfl⟩
  | told hw' hwg' hstage hc =>
    -- the task is told only after the cell has been cleared
    rw [hw] at hw'
    cases hw'
    have horderly := (hs.owner i w hw).stage
    rw [hstage] at horderly
    obtain ⟨-, y, hy, hzero, -⟩ := horderly
    rw [hwg] at hy
    cases hy
    obtain ⟨b, u, hclear⟩ := hclearing hzero
    rw [hstage] at hclear
    cases hclear

/-- A cell from which an address was withdrawn stays zero. -/
theorem Moves.withdrawn {x : Actor} (h : Moves s x t) (hown : s.Assigned owns)
    {i k : Nat} {slot : Slot} (hcell : owns slot.address = (i, k)) {g : Guard}
    (hp : s.Withdrawn i k slot g) : ∃ g', t.Withdrawn i k slot g' := by
  obtain ⟨g', hg', htends⟩ := h.tends hown hcell hp.guard
  refine ⟨g', ?_⟩
  cases htends with
  | spared hc => exact ⟨hg', hc.trans hp.cell, hp.bound, hp.slotless⟩
  | stored hb ha hc =>
    rw [hp.bound] at hb
    cases hb
  | unpinned hc => exact ⟨hg', hc.trans hp.cell, hp.bound, hp.slotless⟩
  | cleared hslot hc =>
    rw [hp.slotless] at hslot
    cases hslot
  | told hw hwg hstage hc => exact ⟨hg', hc.trans hp.cell, hp.bound, hp.slotless⟩

theorem Reaches.trans (h : Reaches s t) (h' : Reaches t u) : Reaches s u := by
  induction h with
  | refl s => exact h'
  | step x h rest ih => exact .step x h (ih h')

theorem Reaches.withdrawn (h : Reaches s t) (hs : s.Orderly) (hown : s.Assigned owns)
    {i k : Nat} {slot : Slot} (hcell : owns slot.address = (i, k)) {g : Guard}
    (hp : s.Withdrawn i k slot g) : ∃ g', t.Withdrawn i k slot g' := by
  induction h generalizing g with
  | refl s => exact ⟨g, hp⟩
  | step x h rest ih =>
    have hmove := moves_of_step? h
    obtain ⟨g', hp'⟩ := hmove.withdrawn hown hcell hp
    exact ih (hmove.orderly hs) (hmove.assigned hs hown) hp'

theorem Reaches.published (h : Reaches s t) (hs : s.Orderly) (hown : s.Assigned owns)
    {i k a j : Nat} {slot : Slot} (hcell : owns slot.address = (i, k)) {g : Guard}
    (hp : s.Published i k slot a j g) :
    ∃ g', t.Published i k slot a j g' ∨ t.Withdrawn i k slot g' := by
  induction h generalizing g with
  | refl s => exact ⟨g, .inl hp⟩
  | step x h rest ih =>
    have hmove := moves_of_step? h
    obtain ⟨g', hp' | hp'⟩ := hmove.published hs hown hcell hp
    · exact ih (hmove.orderly hs) (hmove.assigned hs hown) hp'
    · obtain ⟨g'', hp''⟩ := rest.withdrawn (hmove.orderly hs) (hmove.assigned hs hown) hcell hp'
      exact ⟨g'', .inr hp''⟩

theorem Published.holds (hs : s.Orderly) {i k a j : Nat} {slot : Slot} {g : Guard}
    (hp : s.Published i k slot a j g) : s.Holds j a := by
  obtain ⟨w, hw, hwg⟩ := guard?_eq_some.1 hp.guard
  obtain ⟨j', hj, hholds⟩ := hs.holds hw hwg hp.backed
  rw [hp.task, Option.some.injEq] at hj
  exact hj ▸ hholds

/-- Every guard that has a slot has its address in the cell. -/
def Displayed (s : Threads σ ρ) : Prop :=
  ∀ (i k : Nat) (g : Guard) (slot : Slot), s.guard? i k = some g → g.slot = some slot →
    ∃ a j, s.Published i k slot a j g ∧ (g.address ≠ 0 → a = g.address)

theorem Moves.guard {x : Actor} (h : Moves s x t) (hs : s.Orderly) {i k : Nat} {g' : Guard}
    (hg : t.guard? i k = some g') : (∃ g, s.guard? i k = some g) ∨ g'.slot = none := by
  obtain ⟨w', hw', hwg⟩ := guard?_eq_some.1 hg
  cases h with
  | task hx h => exact .inl ⟨g', hg⟩
  | @owner j v v' p ns hv h =>
    rcases getElem?_set_eq_some hv hw' with ⟨rfl, rfl⟩ | ⟨-, hw'⟩
    · rcases h.guard hwg with ⟨g, hg, -⟩ | ⟨cleanup, hstage⟩
      · exact .inl ⟨g, guard?_eq_some.2 ⟨v, hv, hg⟩⟩
      · have horderly := (hs.owner i v hv).stage
        rw [hstage] at horderly
        exact .inr horderly.2
    · exact .inl ⟨g', guard?_eq_some.2 ⟨w', hw', hwg⟩⟩

theorem Moves.displayed {x : Actor} (h : Moves s x t) (hs : s.Orderly) (hown : s.Assigned owns)
    (hd : s.Displayed) : t.Displayed := by
  intro i k g' slot hg' hslot
  obtain ⟨w', hw', hwg'⟩ := guard?_eq_some.1 hg'
  have hcell : owns slot.address = (i, k) :=
    h.assigned hs hown i w' hw' k slot (.inr ⟨g', hwg', hslot⟩)
  rcases h.guard hs hg' with ⟨g, hg⟩ | hnone
  swap
  · rw [hnone] at hslot
    cases hslot
  -- an address that was published before still is
  have hkeep : g.slot = some slot → (g'.address ≠ 0 → g'.address = g.address ∧ g.address ≠ 0) →
      ∃ a j, t.Published i k slot a j g' ∧ (g'.address ≠ 0 → a = g'.address) := by
    intro hold hsame
    obtain ⟨a, j, hp, ha⟩ := hd i k g slot hg hold
    obtain ⟨y, hp' | hp'⟩ := h.published hs hown hcell hp
    · obtain rfl : y = g' := Option.some.inj (hp'.guard.symm.trans hg')
      refine ⟨a, j, hp', ?_⟩
      intro hne
      obtain ⟨heq, hne'⟩ := hsame hne
      rw [heq, ha hne']
    · obtain rfl : y = g' := Option.some.inj (hp'.guard.symm.trans hg')
      rw [hp'.slotless] at hslot
      cases hslot
  obtain ⟨y, hy, htends⟩ := h.tends hown hcell hg
  obtain rfl : y = g' := Option.some.inj (hy.symm.trans hg')
  cases htends with
  | spared hc => exact hkeep hslot fun hne => ⟨rfl, hne⟩
  | unpinned hc => exact hkeep hslot fun hne => absurd rfl hne
  | told hw hwg hstage hc => exact hkeep hslot fun hne => ⟨rfl, hne⟩
  | cleared hold hc => cases hslot
  | stored hb ha hc =>
    cases hslot
    obtain ⟨w, hw, hwg⟩ := guard?_eq_some.1 hg
    have hback := (hs.owner i w hw).guard k g hwg ha
    have ⟨j, v, hj, _⟩ := hback
    exact ⟨g.address, j, ⟨hy, hc, rfl, hj, hback.mono h.grows rfl⟩, fun _ => rfl⟩

theorem Reaches.displayed (h : Reaches s t) (hs : s.Orderly) (hown : s.Assigned owns)
    (hd : s.Displayed) : t.Displayed := by
  induction h with
  | refl s => exact hd
  | step x h rest ih =>
    have hmove := moves_of_step? h
    exact ih (hmove.orderly hs) (hmove.assigned hs hown) (hmove.displayed hs hown hd)

theorem Fresh.displayed (hs : s.Fresh) : s.Displayed := by
  intro i k g slot hg
  obtain ⟨w, hw, hwg⟩ := guard?_eq_some.1 hg
  rw [(hs.owner i w hw).1] at hwg
  cases hwg

/-- Whatever the owners and their tasks do, and in whatever order: a cell in which a guard
was stored holds the guard's address only as long as the guard's task holds that address,
holds nothing else but zero, and once it is zero it stays zero. -/
theorem Reaches.published_address_is_held {s₀ : Threads σ ρ} (h₀ : s₀.Fresh)
    (hown : s₀.Assigned owns) (hs : Reaches s₀ s) {i k : Nat} {g : Guard} {slot : Slot}
    (hg : s.guard? i k = some g) (hslot : g.slot = some slot) (ha : g.address ≠ 0)
    (ht : Reaches s t) :
    (slot.read t.shared.cells ≠ 0 → slot.read t.shared.cells = g.address ∧
      ∃ j, g.task = some j ∧ t.Holds j g.address) ∧
    ∀ {u}, Reaches t u → slot.read t.shared.cells = 0 → slot.read u.shared.cells = 0 := by
  have hos := hs.orderly h₀.orderly
  have hos' := hs.assigned h₀.orderly hown
  have hot := ht.orderly hos
  obtain ⟨w, hw, hwg⟩ := guard?_eq_some.1 hg
  have hcell : owns slot.address = (i, k) := hos' i w hw k slot (.inr ⟨g, hwg, hslot⟩)
  obtain ⟨a, j, hp, haddress⟩ := hs.displayed h₀.orderly hown h₀.displayed i k g slot hg hslot
  obtain rfl := haddress ha
  obtain ⟨g', hp' | hp'⟩ := ht.published hos hos' hcell hp
  · refine ⟨fun _ => ⟨hp'.cell, j, hp.task, hp'.holds hot⟩, ?_⟩
    intro u _ hzero
    exact absurd (hp'.cell.symm.trans hzero) ha
  · refine ⟨fun hne => absurd hp'.cell hne, ?_⟩
    intro u hu _
    obtain ⟨g'', hp''⟩ := hu.withdrawn hot (ht.assigned hos hos') hcell hp'
    exact hp''.cell

/-- An owner that makes one guard, stores it and releases it. -/
def lone : Threads Unit Unit where
  shared := Shared.start ()
  owners := [{
    thread := "main"
    program := [.pin {} .unmanaged (pure 16) (pure ()), .store 0 ⟨64, by decide, by decide⟩,
      .release 0 false] }]

theorem lone_fresh : lone.Fresh where
  tasks := rfl
  owner i w hw := by
    obtain rfl := List.mem_singleton.1 (List.mem_of_getElem? hw)
    exact ⟨rfl, rfl⟩

theorem lone_assigned : lone.Assigned fun _ => (0, 0) := by
  intro i w hw k slot hu
  have hi : i = 0 := Nat.lt_one_iff.1 (List.getElem?_eq_some_iff.1 hw).1
  obtain rfl := List.mem_singleton.1 (List.mem_of_getElem? hw)
  rcases hu with hmem | ⟨g, hg, -⟩
  · simp at hmem
    rw [hi, hmem.1]
  · cases hg

/-- The release has begun, but the cell has not been cleared. -/
theorem lone_address_is_held :
    ∃ t, Reaches lone t ∧ t.shared.cells.wordAt 64 = 16 ∧ ∃ j, t.Holds j 16 := by
  let made : List Actor := [.owner 0, .owner 0, .task 0, .task 0, .task 0, .task 0, .owner 0,
    .owner 0, .owner 0]
  let s := (lone.steps? made).get rfl
  let t := (s.steps? [.owner 0]).get rfl
  have hs : Reaches lone s := .of_steps? (Option.some_get _).symm
  have ht : Reaches s t := .of_steps? (Option.some_get _).symm
  have hg : s.guard? 0 0 = some ⟨16, some ⟨64, by decide, by decide⟩, true, some 0⟩ := rfl
  have hheld := Reaches.published_address_is_held lone_fresh lone_assigned hs hg rfl (by decide) ht
  exact ⟨t, hs.trans ht, rfl, (hheld.1 (by decide)).2.imp fun _ hj => hj.2⟩

end Threads

end PinnedHeap
