import PinnedHeap.Action

/-!
# Comparing two runs

Two runs of an action, from states that are alike, are to end alike: with
corresponding answers or faults, with corresponding notices, and in states
that are alike again. `Comparison.Meets` says that of two actions at two states,
and there is one rule for every way of putting actions together.

Notices correspond one by one, but for the rows of a listing, which may stand in
another order.

What a run needs of its surroundings is known only when it is over: the sizes of
the buckets that it creates. So the two runs are compared under the condition
that these are the next ones of a list that was fixed before.
-/

namespace PinnedHeap

/-- The logs are the same but for `f`, and for the order in which the rows of a listing stand. -/
inductive SameLog {ν : Type} (f : ν → ν) (row : ν → Bool) : List ν → List ν → Prop where
  | nil : SameLog f row [] []
  | entry (n : ν) {ns ms : List ν} (h : SameLog f row ns ms) : SameLog f row (n :: ns) (f n :: ms)
  | rows {rs rs' ns ms : List ν} (hrow : ∀ n ∈ rs, row n = true) (hrs : rs'.Perm (rs.map f))
      (h : SameLog f row ns ms) : SameLog f row (rs ++ ns) (rs' ++ ms)

namespace SameLog

variable {ν μ : Type} {f : ν → ν} {row : ν → Bool} {ns ms ns' ms' : List ν}

theorem append (h : SameLog f row ns ms) (h' : SameLog f row ns' ms') :
    SameLog f row (ns ++ ns') (ms ++ ms') := by
  induction h with
  | nil => exact h'
  | entry n _ ih => exact .entry n ih
  | rows hrow hrs _ ih =>
    rw [List.append_assoc, List.append_assoc]
    exact .rows hrow hrs ih

theorem of_map (ns : List ν) : SameLog f row ns (ns.map f) := by
  induction ns with
  | nil => exact .nil
  | cons n _ ih => exact .entry n ih

theorem map {f' : μ → μ} {row' : μ → Bool} {g : ν → μ} (hf : ∀ n, g (f n) = f' (g n))
    (hrow : ∀ n, row' (g n) = row n) (h : SameLog f row ns ms) :
    SameLog f' row' (ns.map g) (ms.map g) := by
  induction h with
  | nil => exact .nil
  | entry n _ ih =>
    rw [List.map_cons, List.map_cons, hf]
    exact .entry _ ih
  | @rows rs rs' _ _ hrows hrs _ ih =>
    rw [List.map_append, List.map_append]
    refine .rows (fun n hn => ?_) ?_ ih
    · obtain ⟨m, hm, rfl⟩ := List.mem_map.1 hn
      rw [hrow, hrows m hm]
    · have hswap : (rs.map f).map g = (rs.map g).map f' := by
        rw [List.map_map, List.map_map]
        exact List.map_congr_left fun n _ => hf n
      exact hswap ▸ hrs.map g

end SameLog

/-- What it means that two runs correspond. -/
structure Comparison (ν σ : Type) where
  /-- Are the states alike? -/
  alike : σ → σ → Prop
  /-- The fault of the other run. -/
  fault : Fault → Fault
  /-- The notice of the other run. -/
  notice : ν → ν
  /-- Is the notice a row of a listing? -/
  row : ν → Bool
  /-- The size of the bucket that a notice says was created. -/
  created? : ν → Option Nat
  /-- How many buckets have been created. -/
  created : σ → Nat
  /-- The sizes of all buckets that are ever created, in their order. -/
  sizes : List Nat

namespace Comparison

variable {ν σ τ α β α' β' : Type} {C : Comparison ν σ}

/-- The sizes of the buckets that were created, in their order. -/
def sizesIn (C : Comparison ν σ) (ns : List ν) : List Nat := ns.filterMap C.created?

/-- Both have answered, and the answers are related; or both were broken off by corresponding
faults. -/
def Answers (C : Comparison ν σ) (Q : α → β → Prop) : Except Fault α → Except Fault β → Prop
  | .ok a, .ok b => Q a b
  | .error e, .error e' => e' = C.fault e
  | _, _ => False

/-- Two runs have ended alike; the first one began at `s`. -/
structure Faces (C : Comparison ν σ) (Q : α → β → Prop) (s : σ) (o : Outcome ν σ α)
    (o' : Outcome ν σ β) : Prop where
  answer : C.Answers Q o.answer o'.answer
  state : C.alike o.state o'.state
  notices : SameLog C.notice C.row o.notices o'.notices
  created : C.created o.state = C.created s + (C.sizesIn o.notices).length

/-- Run from `s` and `t`, the actions end alike, provided that the buckets which the first one
creates are the next ones of the list. -/
def Meets (C : Comparison ν σ) (Q : α → β → Prop) (s t : σ) (x : Action ν σ α)
    (y : Action ν σ β) : Prop :=
  C.sizesIn (x.run s).notices <+: C.sizes.drop (C.created s) →
    C.Faces Q s (x.run s) (y.run t)

@[simp] theorem sizesIn_nil : C.sizesIn [] = [] := rfl

theorem sizesIn_append (ns ms : List ν) : C.sizesIn (ns ++ ms) = C.sizesIn ns ++ C.sizesIn ms :=
  List.filterMap_append

theorem Answers.mono {Q R : α → β → Prop} (hQR : ∀ a b, Q a b → R a b) {r : Except Fault α}
    {r' : Except Fault β} (h : C.Answers Q r r') : C.Answers R r r' := by
  match r, r', h with
  | .ok a, .ok b, h => exact hQR a b h
  | .error _, .error _, h => exact h

namespace Meets

variable {Q : α → β → Prop} {R : α' → β' → Prop} {s t : σ}

theorem mono {P : α → β → Prop} {x : Action ν σ α} {y : Action ν σ β} (h : C.Meets Q s t x y)
    (hQP : ∀ a b, Q a b → P a b) : C.Meets P s t x y := fun hsizes =>
  { h hsizes with answer := (h hsizes).answer.mono hQP }

theorem pure {a : α} {b : β} (hst : C.alike s t) (hab : Q a b) :
    C.Meets Q s t (Pure.pure a) (Pure.pure b) :=
  fun _ => ⟨hab, hst, .nil, rfl⟩

theorem fail {e e' : Fault} (hst : C.alike s t) (he : e' = C.fault e) :
    C.Meets Q s t (Action.fail e) (Action.fail e') :=
  fun _ => ⟨he, hst, .nil, rfl⟩

theorem ofExcept {r : Except Fault α} {r' : Except Fault β} (hst : C.alike s t)
    (h : C.Answers Q r r') : C.Meets Q s t (Action.ofExcept r) (Action.ofExcept r') := by
  match r, r', h with
  | .ok a, .ok b, h => exact fun _ => ⟨h, hst, .nil, rfl⟩
  | .error e, .error e', h => exact fun _ => ⟨h, hst, .nil, rfl⟩

theorem update {u v : σ → σ} (h : C.alike (u s) (v t)) (hc : C.created (u s) = C.created s) :
    C.Meets (fun _ _ => True) s t (Action.update u) (Action.update v) :=
  fun _ => ⟨trivial, h, .nil, hc⟩

/-- A notice that does not tell of a new bucket. -/
theorem note {n m : ν} (hst : C.alike s t) (hm : m = C.notice n) (hn : C.created? n = none) :
    C.Meets (fun _ _ => True) s t (Action.note n) (Action.note m) := by
  intro _
  subst hm
  refine ⟨trivial, hst, .entry n .nil, ?_⟩
  simp [sizesIn, hn]

theorem bind {x : Action ν σ α} {y : Action ν σ β} {f : α → Action ν σ α'}
    {g : β → Action ν σ β'} (hx : C.Meets Q s t x y)
    (hf : ∀ a b s' t', (∃ ns, x.run s = ⟨.ok a, s', ns⟩) → Q a b → C.alike s' t' →
      C.Meets R s' t' (f a) (g b)) :
    C.Meets R s t (x >>= f) (y >>= g) := by
  unfold Meets at *
  rw [Action.run_bind, Action.run_bind]
  generalize x.run s = o at hx hf ⊢
  generalize y.run t = o' at hx ⊢
  obtain ⟨r, s', ns⟩ := o
  obtain ⟨r', t', ns'⟩ := o'
  cases r with
  | error e =>
    intro hsizes
    obtain ⟨hanswer, hstate, hnotices, hcreated⟩ := hx hsizes
    cases r' with
    | ok b => exact hanswer.elim
    | error e' => exact ⟨hanswer, hstate, hnotices, hcreated⟩
  | ok a =>
    intro hsizes
    simp only [sizesIn_append] at hsizes
    obtain ⟨hanswer, hstate, hnotices, hcreated⟩ := hx ((List.prefix_append _ _).trans hsizes)
    cases r' with
    | error e' => exact hanswer.elim
    | ok b =>
      simp only at hstate hnotices hcreated
      -- what the rest creates comes behind what has been created
      have hrest : C.sizesIn ((f a).run s').notices <+: C.sizes.drop (C.created s') := by
        obtain ⟨later, hlater⟩ := hsizes
        refine ⟨later, ?_⟩
        rw [hcreated, ← List.drop_drop, ← hlater, List.append_assoc, List.drop_left]
      obtain ⟨hanswer', hstate', hnotices', hcreated'⟩ :=
        hf a b s' t' ⟨ns, rfl⟩ hanswer hstate hrest
      refine ⟨hanswer', hstate', hnotices.append hnotices', ?_⟩
      simp only [hcreated', hcreated, sizesIn_append, List.length_append, Nat.add_assoc]

theorem read_bind {f : σ → Action ν σ α} {g : σ → Action ν σ β}
    (h : C.Meets Q s t (f s) (g t)) : C.Meets Q s t (Action.read >>= f) (Action.read >>= g) := by
  unfold Meets at *
  simpa only [Action.run_bind, Action.run_read, List.nil_append] using h

theorem update_bind {u v : σ → σ} {f g : Unit → Action ν σ α} {Q : α → α → Prop}
    (hc : C.created (u s) = C.created s) (hst : C.alike (u s) (v t))
    (h : ∀ s' t', s' = u s → C.alike s' t' → C.Meets Q s' t' (f ()) (g ())) :
    C.Meets Q s t (Action.update u >>= f) (Action.update v >>= g) := by
  have hrun := h (u s) (v t) rfl hst
  unfold Meets at *
  simp only [Action.run_bind, Action.run_update, List.nil_append]
  rw [← hc]
  intro hsizes
  obtain ⟨hanswer, hstate, hnotices, hcreated⟩ := hrun hsizes
  exact ⟨hanswer, hstate, hnotices, hcreated.trans (by rw [hc])⟩

theorem note_bind {n m : ν} {f g : Unit → Action ν σ α} {Q : α → α → Prop}
    (hm : m = C.notice n) (hn : C.created? n = none) (h : C.Meets Q s t (f ()) (g ())) :
    C.Meets Q s t (Action.note n >>= f) (Action.note m >>= g) := by
  unfold Meets at *
  simp only [Action.run_bind, Action.run_note, List.singleton_append]
  have hnone (ns : List ν) : C.sizesIn (n :: ns) = C.sizesIn ns := List.filterMap_cons_none hn
  rw [hnone]
  intro hsizes
  obtain ⟨hanswer, hstate, hnotices, hcreated⟩ := h hsizes
  subst hm
  exact ⟨hanswer, hstate, .entry n hnotices, by rwa [hnone]⟩

/-- What has been computed is related, and neither run changes its state. -/
theorem answers_bind {r : Except Fault α} {r' : Except Fault β} {f : α → Action ν σ α'}
    {g : β → Action ν σ β'} (hst : C.alike s t) (h : C.Answers Q r r')
    (hf : ∀ a b, r = .ok a → Q a b → C.Meets R s t (f a) (g b)) :
    C.Meets R s t (Action.ofExcept r >>= f) (Action.ofExcept r' >>= g) := by
  match r, r', h with
  | .error e, .error e', h =>
    unfold Meets
    simp only [Action.run_bind, Action.run_ofExcept_error]
    exact fun _ => ⟨h, hst, .nil, rfl⟩
  | .ok a, .ok b, h =>
    have hrun := hf a b rfl h
    unfold Meets at *
    simpa only [Action.run_bind, Action.run_ofExcept_ok, List.nil_append] using hrun

/-- Both go on with the same number, or are broken off by the same fault. -/
theorem ofExcept_bind {r : Except Fault τ} {f : τ → Action ν σ α} {g : τ → Action ν σ β}
    (hst : C.alike s t) (hr : ∀ e, r = .error e → C.fault e = e)
    (h : ∀ a, r = .ok a → C.Meets Q s t (f a) (g a)) :
    C.Meets Q s t (Action.ofExcept r >>= f) (Action.ofExcept r >>= g) := by
  refine answers_bind (Q := fun a b => b = a) hst ?_ fun a b hr hab => hab ▸ h a hr
  cases r with
  | error e => exact (hr e rfl).symm
  | ok a => rfl

theorem require_bind {c c' : Prop} [Decidable c] [Decidable c'] {e e' : Fault}
    {f g : Unit → Action ν σ α} {Q : α → α → Prop} (hst : C.alike s t) (hc : c' ↔ c)
    (he : e' = C.fault e) (h : c → C.Meets Q s t (f ()) (g ())) :
    C.Meets Q s t (Action.require c e >>= f) (Action.require c' e' >>= g) := by
  by_cases hcase : c
  · have hrun := h hcase
    unfold Meets at *
    simpa only [Action.run_bind, Action.run_require, if_pos hcase, if_pos (hc.2 hcase),
      List.nil_append] using hrun
  · have hcase' : ¬ c' := fun h' => hcase (hc.1 h')
    unfold Meets
    simp only [Action.run_bind, Action.run_require, if_neg hcase, if_neg hcase']
    exact fun _ => ⟨he, hst, .nil, rfl⟩

theorem require {c c' : Prop} [Decidable c] [Decidable c'] {e e' : Fault} (hst : C.alike s t)
    (hc : c' ↔ c) (he : e' = C.fault e) :
    C.Meets (fun _ _ => True) s t (Action.require c e) (Action.require c' e') := by
  unfold Meets
  rw [Action.run_require, Action.run_require]
  refine fun _ => ⟨?_, hst, .nil, rfl⟩
  by_cases hcase : c
  · simp only [if_pos hcase, if_pos (hc.2 hcase)]
    trivial
  · simp only [if_neg hcase, if_neg (mt hc.1 hcase)]
    exact he

theorem ite {c c' : Prop} [Decidable c] [Decidable c'] {x₁ x₂ : Action ν σ α}
    {y₁ y₂ : Action ν σ β} (hc : c' ↔ c) (h₁ : c → C.Meets Q s t x₁ y₁)
    (h₂ : ¬ c → C.Meets Q s t x₂ y₂) :
    C.Meets Q s t (if c then x₁ else x₂) (if c' then y₁ else y₂) := by
  by_cases hcase : c
  · rw [if_pos hcase, if_pos (hc.2 hcase)]
    exact h₁ hcase
  · rw [if_neg hcase, if_neg (mt hc.1 hcase)]
    exact h₂ hcase

theorem attempt {x : Action ν σ α} {y : Action ν σ β} (h : C.Meets Q s t x y) :
    C.Meets (C.Answers Q) s t (Action.attempt x) (Action.attempt y) := by
  intro hsizes
  obtain ⟨hanswer, hstate, hnotices, hcreated⟩ := h hsizes
  exact ⟨hanswer, hstate, hnotices, hcreated⟩

end Meets

/-! ## A state beside another one -/

/-- The comparison of states beside something else that is alike too. -/
def beside (C : Comparison ν σ) (near : τ → τ → Prop) : Comparison ν (τ × σ) where
  alike x y := near x.1 y.1 ∧ C.alike x.2 y.2
  fault := C.fault
  notice := C.notice
  row := C.row
  created? := C.created?
  created x := C.created x.2
  sizes := C.sizes

theorem Meets.within_snd {Q : α → β → Prop} {near : τ → τ → Prop} {x y : τ × σ}
    {f : Action ν σ α} {g : Action ν σ β} (hxy : (C.beside near).alike x y)
    (h : C.Meets Q x.2 y.2 f g) :
    (C.beside near).Meets Q x y (Action.within .snd f) (Action.within .snd g) := by
  intro hsizes
  obtain ⟨hanswer, hstate, hnotices, hcreated⟩ := h hsizes
  exact ⟨hanswer, ⟨hxy.1, hstate⟩, hnotices, hcreated⟩

end Comparison

end PinnedHeap
