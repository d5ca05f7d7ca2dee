import PinnedHeap.Proofs.Heap.Unbroken

/-!
# The wish to collect

There are two reasons to collect: more storage counts as in use than the
target allows, or a collection was put off and none has been completed since.
A heap wants a collection if and only if it has a reason. The flag that says
so is also set by the copies that a collection makes, which are counted
against the target of old; that it does not stay set is because the flag is
cleared when they have been made, and the target that is set last leaves what
is in use below it.

`Deferred` is a statement about the whole history, so the equivalence is led
from turn to turn (`Answers.wantsCollection_iff`).
-/

namespace PinnedHeap.Heap

variable {placement : Nat → Nat} {config : Config} {h k : Heap} {c : Call} {x : Answer}
  {r : Report} {t : Turn} {ts : List Turn}

/-! ## Collections in a history -/

/-- A collection was asked for and put off. -/
def Turn.Defers (t : Turn) : Prop := t.before.Collects t.call ∧ 0 < t.before.inhibitors

/-- A collection was completed. -/
def Turn.Completes (t : Turn) : Prop :=
  ∃ r, (t.call.run.run t.before).answer = .ok (.report (some r))

/-- A collection was put off, and none has been completed since. -/
def Deferred (ts : List Turn) : Prop :=
  ∃ since t before, ts = since ++ t :: before ∧ t.Defers ∧ ∀ u ∈ since, ¬ u.Completes

/-- There is a reason to collect. -/
def Due (ts : List Turn) (h : Heap) : Prop := h.target < h.storage ∨ Deferred ts

theorem not_deferred_nil : ¬ Deferred [] := by
  rintro ⟨since, t, before, heq, -, -⟩
  simp at heq

theorem deferred_cons : Deferred (t :: ts) ↔ t.Defers ∨ ¬ t.Completes ∧ Deferred ts := by
  constructor
  · rintro ⟨since, u, before, heq, hu, hsince⟩
    cases since with
    | nil =>
      cases heq
      exact .inl hu
    | cons v since =>
      obtain ⟨rfl, rfl⟩ := List.cons.inj heq
      exact .inr ⟨hsince t List.mem_cons_self, since, u, before, rfl, hu,
        fun w hw => hsince w (List.mem_cons_of_mem t hw)⟩
  · rintro (ht | ⟨ht, since, u, before, rfl, hu, hsince⟩)
    · exact ⟨[], t, ts, rfl, ht, fun u hu => absurd hu List.not_mem_nil⟩
    · refine ⟨t :: since, u, before, rfl, hu, fun v hv => ?_⟩
      rcases List.mem_cons.1 hv with rfl | hv
      · exact ht
      · exact hsince v hv

theorem Collects.stores (hc : h.Collects c) : c.Stores := by
  cases c with
  | collect => trivial
  | collectIfWanted => trivial
  | _ => cases hc

/-- Who is answered with something else than a report has completed no collection. -/
theorem not_completes (hans : (c.run.run h).answer = .ok x) (hx : ∀ r, x ≠ .report (some r)) :
    ¬ Turn.Completes ⟨h, c⟩ := by
  rintro ⟨r, hr⟩
  rw [hans] at hr
  exact hx r (Except.ok.inj hr)

/-- What is pending stays pending in a turn that has nothing to do with collections. -/
theorem deferred_cons_of_not (hdefers : ¬ t.Defers) (hcompletes : ¬ t.Completes) :
    Deferred (t :: ts) ↔ Deferred ts := by
  rw [deferred_cons]
  exact ⟨fun ht => (ht.resolve_left hdefers).2, fun hts => .inr ⟨hcompletes, hts⟩⟩

/-! ## One turn -/

theorem Reserves.wantsCollection {bytes a : Nat} (hr : Reserves h bytes a k) :
    k.wantsCollection = (h.wantsCollection || decide (h.target < h.storage + bytes)) := by
  rw [hr.frame]
  rfl

/-- A heap that wants a collection if and only if it has a reason goes on doing so. -/
theorem Answers.wantsCollection_iff (ha : Answers h c x k) (hans : (c.run.run h).answer = .ok x)
    (hfactor : 1 ≤ h.config.targetFactor) (hh : h.wantsCollection = true ↔ Due ts h) :
    k.wantsCollection = true ↔ Due (⟨h, c⟩ :: ts) k := by
  cases ha with
  | @allocated len a m hpos hres =>
    have hdefers : ¬ Turn.Defers ⟨h, .allocate len⟩ := fun hd => hd.1
    have hcompletes : ¬ Turn.Completes ⟨h, .allocate len⟩ :=
      not_completes hans fun r heq => by cases heq
    rw [Due, deferred_cons_of_not hdefers hcompletes, wantsCollection_furnish,
      hres.wantsCollection, (settings_furnish _ _).target, hres.settings.target, storage_furnish,
      hres.storage, Bool.or_eq_true, decide_eq_true_eq, hh, Due]
    -- what has passed the target already does so all the more
    have hmono : h.target < h.storage → h.target < h.storage + Word.roundUp len := by omega
    tauto
  | @altered c x k hc ha =>
    have hdefers : ¬ Turn.Defers ⟨h, c⟩ := fun hd => hc hd.1.stores
    have hcompletes : ¬ Turn.Completes ⟨h, c⟩ := fun ⟨r, hr⟩ => hc (stores_of_report hr)
    rw [Due, deferred_cons_of_not hdefers hcompletes]
    cases ha <;> exact hh
  | @deferred c hc hin =>
    have hdefers : Turn.Defers ⟨h, c⟩ := ⟨hc, hin⟩
    exact iff_of_true rfl (.inr (deferred_cons.2 (.inl hdefers)))
  | @collected c r k hc hin hk =>
    obtain ⟨m, hm, -, rfl⟩ := hk.swept
    refine iff_of_false (ne_true_of_eq_false hm.wantsCollection) ?_
    rintro (hlt | hdeferred)
    · have hle : m.config.targetFactor * m.storage ≤ m.raised.target := Nat.le_max_right _ _
      rw [hm.settings.config] at hle
      have hstorage : m.raised.storage = m.storage := rfl
      have hmul := Nat.mul_le_mul_right m.storage hfactor
      omega
    · rcases deferred_cons.1 hdeferred with hdefers | ⟨hcompletes, -⟩
      · have hpos : 0 < h.inhibitors := hdefers.2
        omega
      · exact hcompletes ⟨r, hans⟩
  | unwanted hw =>
    have hdefers : ¬ Turn.Defers ⟨h, .collectIfWanted⟩ := by
      rintro ⟨hc, -⟩
      exact ne_true_of_eq_false hw hc
    have hcompletes : ¬ Turn.Completes ⟨h, .collectIfWanted⟩ :=
      not_completes hans fun r heq => by cases heq
    rw [Due, deferred_cons_of_not hdefers hcompletes]
    exact hh

/-- The target never decreases. -/
theorem Answers.target_le (ha : Answers h c x k) : h.target ≤ k.target := by
  cases ha with
  | allocated hpos hres =>
    rw [(settings_furnish _ _).target, hres.settings.target]
  | altered hc ha => cases ha <;> exact Nat.le_refl _
  | deferred hc hin => exact Nat.le_refl _
  | collected hc hin hk =>
    obtain ⟨m, hm, -, rfl⟩ := hk.swept
    rw [← hm.settings.target]
    exact Nat.le_max_left _ _
  | unwanted hw => exact Nat.le_refl _

/-- A collection that is completed leaves room up to the target, and nothing pending. -/
theorem Completes.target (hk : Completes h r k) :
    h.config.targetFactor * k.storage ≤ k.target ∧ k.wantsCollection = false := by
  obtain ⟨m, hm, -, rfl⟩ := hk.swept
  refine ⟨?_, hm.wantsCollection⟩
  rw [← hm.settings.config]
  exact Nat.le_max_right _ _

/-! ## Histories -/

namespace Unbroken

theorem wantsCollection_iff (hr : Unbroken placement config ts h)
    (hfactor : 1 ≤ config.targetFactor) : h.wantsCollection = true ↔ Due ts h := by
  induction hr with
  | create =>
    refine iff_of_false nofun ?_
    rintro (hlt | hdeferred)
    · exact absurd hlt (Nat.not_lt_zero _)
    · exact not_deferred_nil hdeferred
  | call c hr hans ih =>
    exact (hr.answers hans).wantsCollection_iff hans (hr.config_eq ▸ hfactor) ih

theorem target_le (hr : Unbroken placement config ts h) : ∀ t ∈ ts, t.before.target ≤ h.target := by
  induction hr with
  | create => exact fun t ht => absurd ht List.not_mem_nil
  | call c hr hans ih =>
    intro t ht
    have hle := (hr.answers hans).target_le
    rcases List.mem_cons.1 ht with rfl | ht
    · exact hle
    · exact Nat.le_trans (ih t ht) hle

end Unbroken

/-- The heap, to which these turns have led, wants a collection when it has a reason, and it is
then that one comes about if it may. -/
structure Attentive (ts : List Turn) (h : Heap) : Prop where
  wants : h.wantsCollection = true ↔ Due ts h
  target : ∀ t ∈ ts, t.before.target ≤ h.target
  completed : ∀ (c : Call) (r : Report), (c.run.run h).answer = .ok (.report (some r)) →
    h.config.targetFactor * (c.run.run h).state.storage ≤ (c.run.run h).state.target ∧
      (c.run.run h).state.wantsCollection = false
  /-- With a reason, a collection that is asked for if it is wanted takes place. -/
  granted : Due ts h → h.inhibitors = 0 →
    (Call.collectIfWanted.run.run h).answer =
        (collectNow.run h).answer.map (fun r => .report (some r)) ∧
      (Call.collectIfWanted.run.run h).state = (collectNow.run h).state
  declined : ¬ Due ts h → Call.collectIfWanted.run.run h = ⟨.ok (.report none), h, []⟩
  /-- What was put off stays pending until a collection is completed. -/
  pending : Deferred ts → ∀ (c : Call) (x : Answer), (c.run.run h).answer = .ok x →
    (∀ r, x ≠ .report (some r)) → (c.run.run h).state.wantsCollection = true

/-- As long as no call has broken off, a heap wants a collection if more storage counts as in use
than the target allows or if one was put off and none has been completed since, and for no other
reason. -/
theorem Unbroken.wish_is_exact (hr : Unbroken placement config ts h)
    (hfactor : 1 ≤ config.targetFactor) : Attentive ts h where
  wants := hr.wantsCollection_iff hfactor
  target := hr.target_le
  completed := by
    intro c r hans
    obtain ⟨-, -, hk⟩ := hr.completes hans
    exact hk.target
  granted := by
    intro hdue hin
    have hc : h.Collects .collectIfWanted := (hr.wantsCollection_iff hfactor).2 hdue
    exact ⟨answer_of_collects hc hin, state_of_collects hc hin⟩
  declined := by
    intro hdue
    apply run_unwanted
    rw [← Bool.not_eq_true, hr.wantsCollection_iff hfactor]
    exact hdue
  pending := by
    intro hdeferred c x hans hx
    have hdue : Due (⟨h, c⟩ :: ts) (c.run.run h).state :=
      .inr (deferred_cons.2 (.inr ⟨not_completes hans hx, hdeferred⟩))
    exact ((hr.call c hans).wantsCollection_iff hfactor).2 hdue

/-- A collection has raised the target, and one that was put off after it is pending still, though
less counts as in use than the target allows. It comes about when it is asked for if wanted. -/
theorem deferred_wish_is_exact :
    ∃ ts h, Unbroken (spaced 0x10000 0x10000) ⟨64, 64, 2, false⟩ ts h ∧
      Attentive ts h ∧ h.inhibitors = 0 ∧ [h.storage, h.target] = [136, 256] ∧ Deferred ts ∧
      (Call.collectIfWanted.run.run h).answer = .ok (.report (some ⟨2, 1, 0, 0, 136, 72⟩)) := by
  have hrun : ((create (spaced 0x10000 0x10000) ⟨64, 64, 2, false⟩).answered?
      [.allocate 64, .allocate 64, .collectIfWanted, .inhibit 0, .collect, .unroot 1, .allow,
        .allocate 8]).map
      (fun h => (h.inhibitors, [h.storage, h.target], h.wantsCollection,
        (Call.collectIfWanted.run.run h).answer.toOption)) =
      some (0, [136, 256], true, some (.report (some ⟨2, 1, 0, 0, 136, 72⟩))) := by
    decide +kernel
  obtain ⟨h, hcalls, heq⟩ := Option.map_eq_some_iff.1 hrun
  simp only [Prod.mk.injEq] at heq
  obtain ⟨hin, hcounts, hwants, hanswer⟩ := heq
  obtain ⟨ts, hr⟩ := Unbroken.create.of_answered? hcalls
  have hattentive := hr.wish_is_exact (by decide)
  have hdeferred : Deferred (ts ++ []) := by
    rcases hattentive.wants.1 hwants with hlt | hdeferred
    · simp only [List.cons.injEq] at hcounts
      omega
    · exact hdeferred
  exact ⟨_, h, hr, hattentive, hin, hcounts, hdeferred, answer_of_toOption hanswer⟩

end PinnedHeap.Heap
