import PinnedHeap.Proofs.Heap.Stock

/-!
# The inventory of buckets

What is true of the buckets of a heap with a history, seen over the whole
history: none is lost, doubled or changed, none is created without need, and a
collection leaves none in use for nothing. `Stocked` and `Cleared` carry the
lists through one call; here they are put together along a trail of calls.

When a bucket is created is said by the requests for storage that a call makes
(`Asks`): an allocation makes one, a collection makes one for every object that
it moves, with the heap as it is by then.
-/

namespace PinnedHeap.Heap

variable {placement : Nat → Nat} {config : Config} {h k l : Heap} {away : List Bucket}
  {bytes a : Nat} {c : Call} {r : Except Fault Answer}

/-! ## Calls -/

theorem Stocked.furnish (hst : k.Stocked []) (o : Object) : (k.furnish o).Stocked [] := by
  rw [Heap.furnish, enter_frame]
  exact ⟨hst.numbered, hst.used, hst.spare⟩

theorem Extends.furnish (hk : Extends h k) (o : Object) : Extends h (k.furnish o) := by
  rw [Heap.furnish, enter_frame]
  exact ⟨hk.blocks, hk.owned_le⟩

/-- While a collection goes on, a bucket is on a list of the heap or has been set apart. -/
theorem SettlesAll.blocks {ids : List Nat} {t u : Tally}
    (hset : SettlesAll h.prepare ids t u l) :
    (h.allBuckets.map Bucket.reset).Subperm
      ((l.allBuckets ++ h.unpinnedBuckets).map Bucket.reset) := by
  have hsplit := ((perm_prepare h).map Bucket.reset).symm.subperm
  rw [List.append_nil, List.map_append] at hsplit
  rw [List.map_append]
  exact hsplit.trans ((List.subperm_append_right _).2 hset.extends.blocks)

theorem Swept.extends (hk : Swept h k) : Extends h k := by
  obtain ⟨t, l, hset, rfl⟩ := hk
  refine ⟨?_, hset.extends.owned_le⟩
  rw [reset_retire]
  exact hset.blocks

/-- A heap gives none of its buckets back. -/
theorem Responds.extends (hr : Responds h c r k) : Extends h k := by
  cases hr with
  | allocated hpos hres => exact hres.extends.furnish _
  | collected hc hin hk hcan => exact ⟨hk.extends.blocks, hk.extends.owned_le⟩
  | collectedInVain hc hin hk hcan => exact hk.extends
  | _ => exact .of_eq rfl rfl rfl

theorem Responds.stocked (hr : Responds h c r k) (hh : h.Settled) (hsup : k.Supplied)
    (hst : h.Stocked []) : k.Stocked [] := by
  cases hr with
  | allocated hpos hres =>
    exact (hst.reserve hres (Nat.lt_of_lt_of_le hpos (Word.le_roundUp _))).furnish _
  | collected hc hin hk hcan =>
    have hl := hk.stocked hh.sound ⟨hsup.blocks, hsup.owned_lt⟩ hst
    exact ⟨hl.numbered, hl.used, hl.spare⟩
  | collectedInVain hc hin hk hcan => exact hk.stocked hh.sound hsup hst
  | _ => exact ⟨hst.numbered, hst.used, hst.spare⟩

theorem Reached.stocked (hr : Reached placement config h) : h.Stocked [] := by
  induction hr with
  | create =>
    refine ⟨List.Perm.refl _, ?_, ?_⟩
    · exact fun b hb => absurd hb List.not_mem_nil
    · exact fun b hb => absurd hb List.not_mem_nil
  | call c hr hs ih =>
    exact (conforms hr.settled hr.supplied c hs).stocked hr.settled hs ih

theorem Trail.extends {hs : List Heap} (hr : Trail placement config hs h) :
    ∀ l ∈ hs, Extends l h := by
  induction hr with
  | create =>
    intro l hl
    rw [List.mem_singleton.1 hl]
    exact .refl _
  | call c hr hsup ih =>
    intro l hl
    rcases List.mem_cons.1 hl with rfl | hl
    · exact .refl _
    · exact (ih l hl).trans (conforms hr.reached.settled hr.reached.supplied c hsup).extends

/-! ## Requests for storage -/

/-- In the course of the call, `bytes` bytes of storage are asked for when the heap is `l`. -/
inductive Asks (h : Heap) : Call → Heap → Nat → Prop where
  | allocation {len : Nat} (hpos : 0 < len) : Asks h (.allocate len) h (Word.roundUp len)
  | evacuation {c : Call} {past rest : List Nat} {id : Nat} {t : Tally} {l : Heap}
      {ns : List Notice} {o : Object} (hc : h.Collects c) (hin : h.inhibitors = 0)
      (hids : List.range h.objects.length = past ++ id :: rest)
      (hrun : (settleAll past {}).run h.prepare = ⟨.ok t, l, ns⟩)
      (ho : l.object? id = some o) (hm : o.marked = true) (hr : o.isRetained = false) :
      Asks h c (l.setObject id { o with marked := false }) o.footprint

/-- The request is met by creating a bucket, and no bucket there is has room for it. -/
structure Compels (l : Heap) (bytes : Nat) : Prop where
  created : ((reserve bytes).run l).state.created = l.created + 1
  full : ∀ b ∈ l.allBuckets, b.free < bytes

theorem created_reserve (h : Heap) (hw : bytes % Word.size = 0) :
    ((reserve bytes).run h).state.created = h.created ∨ h.Compels bytes := by
  rcases reserve_cases h hw with ⟨-, a, k, ns, hrun, hres⟩ | ⟨-, hrun⟩ | ⟨-, -, -, hrun⟩
  · cases hres with
    | inUse hb hfit => exact .inl (by rw [hrun]; rfl)
    | recycled hnone hb hfit => exact .inl (by rw [hrun]; rfl)
    | created hnone hspare hcan =>
      refine .inr ⟨by rw [hrun], ?_⟩
      intro b hb
      rcases List.mem_append.1 hb with hb | hb
      · exact hnone b hb
      · exact hspare b hb
  · exact .inl (by rw [hrun])
  · exact .inl (by rw [hrun]; rfl)

theorem created_evacuate (h : Heap) (id : Nat) (o : Object) :
    ((evacuate id o).run h).state.created =
      ((reserve o.footprint).run (h.setObject id o)).state.created := by
  rw [run_evacuate]
  rcases (reserve o.footprint).run (h.setObject id o) with ⟨r, k, ns⟩
  cases r <;> rfl

theorem created_hold (h : Heap) (id : Nat) (o : Object) :
    ((hold id o).run h).state.created = h.created := by
  rw [run_hold]
  split <;> rfl

/-- What is answered is nothing to the heap. -/
theorem state_return {α β : Type} (x : HeapAction α) (b : β) (h : Heap) :
    ((x >>= fun _ => pure b).run h).state = (x.run h).state := by
  rw [Action.run_bind]
  rcases x.run h with ⟨r, k, ns⟩
  cases r <;> rfl

/-- One decision of a collection creates a bucket if it has to, and no more than one. -/
theorem created_settle {id : Nat} {t u : Tally} {ns : List Notice}
    (hw : ∀ o, h.object? id = some o → o.footprint % Word.size = 0)
    (hrun : (settle id t).run h = ⟨.ok u, k, ns⟩) :
    k.created = h.created ∨
      k.created = h.created + 1 ∧
      ∃ o, h.object? id = some o ∧ o.marked = true ∧ o.isRetained = false ∧
        (h.setObject id { o with marked := false }).Compels o.footprint := by
  have hk : ((settle id t).run h).state = k := by rw [hrun]
  simp only [settle, Action.run_bind, Action.run_read] at hk
  cases ho : h.object? id with
  | none =>
    rw [ho] at hk
    exact .inl (congrArg created hk.symm)
  | some o =>
    have hwords := hw o ho
    cases hm : o.marked with
    | false =>
      simp only [ho, hm, Bool.not_false, if_true, state_return] at hk
      rw [← hk]
      exact .inl rfl
    | true =>
      simp only [ho, hm, Bool.not_true, Bool.false_eq_true, if_false] at hk
      cases hr : o.isRetained with
      | true =>
        simp only [hr, if_true, state_return] at hk
        rw [← hk]
        exact .inl (created_hold h id _)
      | false =>
        simp only [hr, Bool.false_eq_true, if_false,
          state_return] at hk
        rw [← hk, created_evacuate]
        rcases created_reserve (h.setObject id { o with marked := false }) hwords with hs | hc
        · exact .inl hs
        · exact .inr ⟨hc.created, o, rfl, hm, hr, hc⟩

/-- Every bucket that is created while objects are settled is created in need. -/
theorem created_settleAll {ids : List Nat} {t u : Tally} {ns : List Notice} (hw : h.Worded)
    (hrun : (settleAll ids t).run h = ⟨.ok u, k, ns⟩) {n : Nat} (hle : h.created ≤ n)
    (hlt : n < k.created) :
    ∃ past id rest v l ms o, ids = past ++ id :: rest ∧
      (settleAll past t).run h = ⟨.ok v, l, ms⟩ ∧ l.created = n ∧ l.object? id = some o ∧
      o.marked = true ∧ o.isRetained = false ∧
      (l.setObject id { o with marked := false }).Compels o.footprint := by
  induction ids generalizing h t ns with
  | nil =>
    simp only [settleAll, Action.run_pure, Outcome.mk.injEq] at hrun
    obtain ⟨-, rfl, -⟩ := hrun
    omega
  | cons id ids ih =>
    simp only [settleAll, Action.run_bind] at hrun
    rcases settle_cases h id t (hw id) with
      ⟨v, l, ms, hset, hsettles⟩ | ⟨o, e, l, ms, -, -, hset, -⟩
    · rcases hrest : (settleAll ids v).run l with ⟨r, k', ms'⟩
      simp only [hset, hrest, Outcome.mk.injEq] at hrun
      obtain ⟨rfl, rfl, -⟩ := hrun
      by_cases hn : n < l.created
      · -- the first decision has created it
        rcases created_settle (hw id) hset with hsame | ⟨hnext, o, ho, hcase⟩
        · omega
        · exact ⟨[], id, ids, t, h, [], o, rfl, rfl, by omega, ho, hcase⟩
      · obtain ⟨past, j, rest, w, m, ns', o, rfl, hpast, hcase⟩ :=
          ih (hsettles.worded hw) hrest (by omega)
        refine ⟨id :: past, j, rest, w, m, ms ++ ns', o, rfl, ?_, hcase⟩
        simp only [settleAll, Action.run_bind, hset, hpast]
    · rw [hset] at hrun
      cases hrun

/-- Every bucket that the call creates, it creates because a request for storage makes it
necessary. -/
def CreatesInNeed (h : Heap) (c : Call) : Prop :=
  ∀ n, h.created ≤ n → n < (c.run.run h).state.created →
    ∃ l bytes, h.Asks c l bytes ∧ l.created = n ∧ l.Compels bytes

theorem created_allocate (h : Heap) (len : Nat) :
    ((Call.allocate len).run.run h).state.created = h.created ∨
      (0 < len ∧ ((Call.allocate len).run.run h).state.created =
        ((reserve (Word.roundUp len)).run h).state.created) := by
  rcases Nat.eq_zero_or_pos len with rfl | hpos
  · exact .inl (by rw [run_allocate_zero])
  by_cases hlt : Word.roundUp len < Word.limit
  swap
  · exact .inl (by rw [run_allocate_of_not_lt hpos hlt])
  refine .inr ⟨hpos, ?_⟩
  rw [run_allocate hpos hlt]
  rcases (reserve (Word.roundUp len)).run h with ⟨r, k, ns⟩
  cases r with
  | error e => rfl
  | ok a =>
    simp only [furnish]
    rw [enter_frame]

theorem createsInNeed_allocate (h : Heap) (len : Nat) : h.CreatesInNeed (.allocate len) := by
  intro n hle hlt
  rcases created_allocate h len with hsame | ⟨hpos, hreserve⟩
  · omega
  · rcases created_reserve h (Word.roundUp_mod_size len) with hsame | hc
    · omega
    · have hcreated := hc.created
      exact ⟨h, _, .allocation hpos, by omega, hc⟩

theorem createsInNeed_collects (hh : h.Settled) (hsup : h.Supplied) (hc : h.Collects c)
    (hin : h.inhibitors = 0) (hstate : (c.run.run h).state = (collectNow.run h).state)
    (hafter : (c.run.run h).state.Supplied) : h.CreatesInNeed c := by
  intro n hle hlt
  rw [hstate] at hlt hafter
  obtain ⟨t, l, ns, hrun, -⟩ := run_settleAll_prepare hh hsup hafter
  have hcreated : (collectNow.run h).state.created = l.created := by
    by_cases hcan : (l.retire h.unpinnedBuckets).CanRaise
    · obtain ⟨ms, hcol⟩ := (run_collectNow hrun).1 hcan
      rw [hcol]
      rfl
    · obtain ⟨ms, hcol⟩ := (run_collectNow hrun).2 hcan
      rw [hcol]
      rfl
  rw [hcreated] at hlt
  obtain ⟨past, id, rest, v, m, ms, o, hids, hpast, hm, ho, hmark, hr, hcompels⟩ :=
    created_settleAll hh.sound.prepare.worded hrun hle hlt
  exact ⟨_, _, .evacuation hc hin hids hpast ho hmark hr, hm, hcompels⟩

theorem state_of_collects (hc : h.Collects c) (hin : h.inhibitors = 0) :
    (c.run.run h).state = (collectNow.run h).state := by
  have hnot : ¬ 0 < h.inhibitors := by omega
  rw [run_of_collects hc, run_collect hnot]

theorem Responds.created (hr : Responds h c r k) :
    k.created = h.created ∨ (∃ len, c = .allocate len) ∨
      (h.Collects c ∧ h.inhibitors = 0) := by
  cases hr with
  | allocated hpos hres => exact .inr (.inl ⟨_, rfl⟩)
  | collected hc hin hk hcan => exact .inr (.inr ⟨hc, hin⟩)
  | collectedInVain hc hin hk hcan => exact .inr (.inr ⟨hc, hin⟩)
  | _ => exact .inl rfl

/-- No call creates a bucket that it has no need of. -/
theorem createsInNeed (hh : h.Settled) (hsup : h.Supplied) (c : Call)
    (hafter : (c.run.run h).state.Supplied) : h.CreatesInNeed c := by
  rcases (conforms hh hsup c hafter).created with hsame | ⟨len, rfl⟩ | ⟨hc, hin⟩
  · intro n hle hlt
    omega
  · exact createsInNeed_allocate h len
  · exact createsInNeed_collects hh hsup hc hin (state_of_collects hc hin) hafter

theorem Responds.cleared (hr : Responds h c r k) (hh : h.Settled) (hsup : h.Supplied)
    (hafter : k.Supplied) {report : Report} (hrep : r = .ok (.report (some report))) :
    Cleared h k := by
  cases hr with
  | collected hc hin hk hcan =>
    have hl := hk.cleared hh hsup ⟨hafter.blocks, hafter.owned_lt⟩
    exact ⟨hl.emptied, hl.occupied⟩
  | _ => cases hrep

/-! ## Histories -/

/-- The buckets of a heap to which these heaps have led: each one that was created is in use
or spare, and not both, and it is where and as large as it was. -/
structure Inventory (hs : List Heap) (h : Heap) : Prop where
  numbered : (h.allBuckets.map Bucket.number).Perm (List.range h.created)
  unchanged : ∀ k ∈ hs, ∀ b ∈ k.allBuckets,
    ∃ c ∈ h.allBuckets, c.number = b.number ∧ c.start = b.start ∧ c.capacity = b.capacity
  owned : h.owned = Buckets.total h.allBuckets
  spare : ∀ b ∈ h.spare, b.used = 0
  inUse : ∀ b ∈ h.buckets, 0 < b.used ∧ b.used % Word.size = 0 ∧ b.used ≤ b.capacity

theorem Trail.inventory {hs : List Heap} (hr : Trail placement config hs h) :
    h.Inventory hs where
  numbered := by
    have hn := hr.reached.stocked.numbered
    rwa [List.append_nil] at hn
  unchanged := by
    intro k hk b hb
    have hmem := (hr.extends k hk).blocks.subset (List.mem_map_of_mem hb)
    obtain ⟨c, hc, heq⟩ := List.mem_map.1 hmem
    refine ⟨c, hc, ?_, ?_, ?_⟩
    · rw [← c.number_reset, heq, b.number_reset]
    · rw [← c.start_reset, heq, b.start_reset]
    · rw [← c.capacity_reset, heq, b.capacity_reset]
  owned := by
    have ho := hr.reached.settled.sound.owned
    rwa [List.append_nil] at ho
  spare := hr.reached.stocked.spare
  inUse := by
    intro b hb
    have hsound := hr.reached.settled.bucket_sound (List.mem_append_left _ hb)
    exact ⟨hr.reached.stocked.used b hb, hsound.used_words, hsound.used_le⟩

/-- Whatever was asked of a heap, and whichever calls have broken off, its buckets are all
there. Whatever is asked next, a bucket is created only if no other one has room, and a
collection that is completed leaves in use what it has to. -/
theorem Trail.buckets_accounted_for {hs : List Heap} (hr : Trail placement config hs h) :
    h.Inventory hs ∧
      ∀ c : Call, (c.run.run h).state.Supplied →
        h.CreatesInNeed c ∧
          ∀ report, (c.run.run h).answer = .ok (.report (some report)) →
            Cleared h (c.run.run h).state := by
  refine ⟨hr.inventory, ?_⟩
  intro c hafter
  have hh := hr.reached.settled
  have hsup := hr.reached.supplied
  refine ⟨createsInNeed hh hsup c hafter, ?_⟩
  intro report hrep
  exact (conforms hh hsup c hafter).cleared hh hsup hafter hrep

/-- Two buckets are in use, of which one keeps a retained object, and a request has failed.
A collection then creates a third bucket for an object that fits in no other, and empties
the second one. -/
theorem crowded_buckets_accounted_for :
    ∃ hs h report, Trail (spaced 0x10000 0x10000) ⟨64, 64, 2, false⟩ hs h ∧
      h.created = 2 ∧ (Call.collect.run.run h).state.created = 3 ∧
      (Call.collect.run.run h).state.Supplied ∧
      (Call.collect.run.run h).answer = .ok (.report (some report)) ∧
      h.Inventory hs ∧ h.CreatesInNeed .collect ∧ Cleared h (Call.collect.run.run h).state := by
  have hrun : ((create (spaced 0x10000 0x10000) ⟨64, 64, 2, false⟩).calls?
      [.allocate 8, .retain 0x10000, .allocate 64, .allocate 448, .unroot 1,
        .allocate 0x1000000000000000, .allocate 8]).map
      (fun h => (h.created, (Call.collect.run.run h).state.created,
        decide (Call.collect.run.run h).state.Supplied,
        (Call.collect.run.run h).answer.toOption)) =
      some (2, 3, true,
        some (.report (some ⟨2, 1, 1, 1, 0x1000000000000000 + 528, 464⟩))) := by
    decide +kernel
  obtain ⟨h, hcalls, heq⟩ := Option.map_eq_some_iff.1 hrun
  simp only [Prod.mk.injEq, decide_eq_true_eq] at heq
  obtain ⟨hcreated, hafter, hsup, hanswer⟩ := heq
  obtain ⟨hs, htrail⟩ := Trail.create.of_calls? hcalls
  have hreport : ∃ report, (Call.collect.run.run h).answer = .ok (.report (some report)) := by
    cases hr : (Call.collect.run.run h).answer with
    | error e =>
      rw [hr] at hanswer
      cases hanswer
    | ok answer =>
      rw [hr] at hanswer
      exact ⟨_, congrArg Except.ok (Option.some.inj hanswer)⟩
  obtain ⟨report, hreport⟩ := hreport
  obtain ⟨hinventory, hnext⟩ := Trail.buckets_accounted_for htrail
  obtain ⟨hneed, hcleared⟩ := hnext .collect hsup
  exact ⟨_, h, report, htrail, hcreated, hafter, hsup, hreport, hinventory, hneed,
    hcleared report hreport⟩

end PinnedHeap.Heap
