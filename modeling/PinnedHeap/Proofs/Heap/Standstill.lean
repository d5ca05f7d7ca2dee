import PinnedHeap.Proofs.Heap.Accounts

/-!
# While collections are put off

As long as the heap has an inhibitor no call completes a collection, so every
object stays where it is, and a collection that is asked for is only noted.
The inhibitors themselves are counted by two calls, and all others leave the
count alone.
-/

namespace PinnedHeap.Heap

variable {h k : Heap} {c : Call} {r : Except Fault Answer} {id a : Nat}

/-- The object `id` exists, and `a` is its address. -/
def LiesAt (h : Heap) (id a : Nat) : Prop := ∃ o, h.object? id = some o ∧ o.address = a

/-- The call puts collections off or allows them again. -/
def Call.Regulates : Call → Prop
  | .inhibit _ => True
  | .allow => True
  | _ => False

instance : DecidablePred Call.Regulates := fun c => by
  unfold Call.Regulates
  split <;> infer_instance

/-- The address of an object is one of its bytes. -/
theorem LiesAt.covers (hl : h.LiesAt id a) (hh : h.Settled) :
    ∃ o, h.object? id = some o ∧ o.Covers a := by
  obtain ⟨o, ho, rfl⟩ := hl
  have hpos := (hh.sound.object ho).len_pos
  exact ⟨o, ho, Nat.le_refl _, by omega⟩

theorem Responds.inhibitors (hr : Responds h c r k) (hc : ¬ c.Regulates) :
    k.inhibitors = h.inhibitors := by
  cases hr with
  | allocated hpos hres =>
    exact (settings_furnish _ _).inhibitors.trans hres.settings.inhibitors
  | inhibited ho hlt => exact absurd trivial hc
  | allowed hpos => exact absurd trivial hc
  | inhibitedInVain ho hlt => exact absurd trivial hc
  | collected hcol hin hk hcan => exact hk.settings.inhibitors
  | collectedInVain hcol hin hk hcan => exact hk.settings.inhibitors
  | _ => rfl

/-- While collections are put off, none is completed. -/
theorem Responds.collections (hr : Responds h c r k) (hin : 0 < h.inhibitors) :
    k.collections = h.collections := by
  cases hr with
  | allocated hpos hres =>
    exact (settings_furnish _ _).collections.trans hres.settings.collections
  | collected hcol hzero hk hcan => omega
  | collectedInVain hcol hzero hk hcan => omega
  | _ => rfl

/-- While collections are put off, no object moves and none is given up. -/
theorem Responds.liesAt (hr : Responds h c r k) (hh : h.Settled) (hsup : k.Supplied)
    (hc : c.Admissible h) (hin : 0 < h.inhibitors) (hl : h.LiesAt id a) : k.LiesAt id a := by
  obtain ⟨o, ho, rfl⟩ := hl
  by_cases hcol : h.Collects c
  · cases hr with
    | deferred _ _ => exact ⟨o, ho, rfl⟩
    | collected _ hzero _ _ => omega
    | collectedInVain _ hzero _ _ => omega
    | refused href => exact ⟨o, ho, rfl⟩
    | unwanted hw => exact ⟨o, ho, rfl⟩
    | _ => cases hcol
  · obtain ⟨p, hp, haddress, -⟩ := hr.stays hh hsup hc ho (.inr hcol)
    exact ⟨p, hp, haddress⟩

/-- Whoever has put collections off can allow them again. -/
theorem run_allow (hin : 0 < h.inhibitors) :
    allow.run h = ⟨.ok (), { h with inhibitors := h.inhibitors - 1 }, []⟩ := by
  simp only [allow, Action.run_bind, Action.run_read, Action.run_require, if_pos hin,
    Action.run_update, List.nil_append]

/-! ## Captures -/

/-- No object lies at the null address. -/
theorem LiesAt.ne_zero (hl : h.LiesAt id a) (hh : h.Settled) (hsup : h.Supplied) : a ≠ 0 := by
  obtain ⟨o, ho, rfl⟩ := hl
  obtain ⟨b, hb, hhouses⟩ := hh.sound.housed ho
  rw [List.append_nil] at hb
  have hpos := hsup.blocks.start_pos b (List.mem_append_left _ hb)
  have hle := hhouses.start_le
  omega

/-- Whoever puts collections off learns where the object lies. -/
theorem run_inhibit_ok {ns : List Notice} (hr : (inhibit id).run h = ⟨.ok a, k, ns⟩) :
    k = { h with inhibitors := h.inhibitors + 1 } ∧ ns = [] ∧ h.LiesAt id a := by
  by_cases hlt : h.inhibitors + 1 < Word.limit
  · cases ho : h.object? id with
    | none =>
      rw [run_inhibit_of_none ho hlt] at hr
      cases hr
    | some o =>
      rw [run_inhibit ho hlt] at hr
      cases hr
      exact ⟨rfl, rfl, o, ho, rfl⟩
  · rw [run_inhibit_full hlt] at hr
    cases hr

/-- A capture is an inhibition that does not answer the null address. -/
theorem run_capture_cases (h : Heap) (id : Nat) :
    (capture id).run h = (inhibit id).run h ∨
      h.LiesAt id 0 ∧ (capture id).run h = ⟨.error (.nullAddress id), h, []⟩ := by
  rcases hr : (inhibit id).run h with ⟨e | a, k, ns⟩
  · exact .inl (by rw [capture, Action.run_bind_of_error hr])
  · obtain ⟨rfl, rfl, hl⟩ := run_inhibit_ok hr
    by_cases ha : a = 0
    · subst ha
      have hallow := run_allow (h := { h with inhibitors := h.inhibitors + 1 })
        (Nat.succ_pos h.inhibitors)
      refine .inr ⟨hl, ?_⟩
      rw [capture, Action.run_bind_of_ok hr]
      simp only [if_true, Action.run_bind_of_ok hallow, Action.run_fail]
      rfl
    · refine .inl ?_
      rw [capture, Action.run_bind_of_ok hr]
      simp only [ha, if_false, Action.run_pure, List.append_nil]

/-- What is captured is where the object lies, and collections are put off. -/
theorem state_capture_of_ok (hr : ((capture id).run h).answer = .ok a) :
    ((capture id).run h).state = { h with inhibitors := h.inhibitors + 1 } ∧ h.LiesAt id a := by
  rcases run_capture_cases h id with hrun | ⟨-, hrun⟩
  · rw [hrun] at hr ⊢
    obtain ⟨hk, -, hl⟩ := run_inhibit_ok (k := ((inhibit id).run h).state) (by rw [← hr])
    exact ⟨hk, hl⟩
  · rw [hrun] at hr
    cases hr

/-- If an object is not captured, nothing is changed. -/
theorem state_capture_of_error {e : Fault} (ho : (h.object? id).isSome = true)
    (hr : ((capture id).run h).answer = .error e) : ((capture id).run h).state = h := by
  obtain ⟨o, ho⟩ := Option.isSome_iff_exists.1 ho
  rcases run_capture_cases h id with hrun | ⟨-, hrun⟩
  · rw [hrun] at hr ⊢
    by_cases hlt : h.inhibitors + 1 < Word.limit
    · rw [run_inhibit ho hlt] at hr
      cases hr
    · rw [run_inhibit_full hlt]
  · rw [hrun]

/-- In a heap whose buckets lie in memory a capture is an inhibition. -/
theorem run_capture (hh : h.Settled) (hsup : h.Supplied) (id : Nat) :
    (capture id).run h = (inhibit id).run h := by
  rcases run_capture_cases h id with hr | ⟨hl, -⟩
  · exact hr
  · exact absurd rfl (hl.ne_zero hh hsup)

/-! ## Collections -/

/-- While collections are put off, one that is asked for is answered with nothing, and at most
noted. -/
theorem run_collect_deferred (hin : 0 < h.inhibitors) (hc : c = .collect ∨ c = .collectIfWanted) :
    (c.run.run h).answer = .ok (.report none) ∧
      (c.run.run h).state =
        { h with wantsCollection := h.wantsCollection || decide (c = .collect) } := by
  rcases hc with rfl | rfl
  · obtain ⟨ns, hrun⟩ := run_collect_of_inhibited hin
    simp only [Call.run, run_return, hrun]
    exact ⟨rfl, by simp⟩
  · cases hw : h.wantsCollection with
    | false =>
      rw [run_unwanted hw]
      exact ⟨rfl, by simp [← hw]⟩
    | true =>
      obtain ⟨ns, hrun⟩ := run_collect_of_inhibited hin
      simp only [Call.run, run_return, run_collectIfWanted hw, hrun]
      exact ⟨rfl, by simp⟩

end PinnedHeap.Heap
