import PinnedHeap.Proofs.Heap.History

/-!
# Calls that break off

Most calls that break off have changed nothing: what they check, they check
first. There are exactly three exceptions. An allocation that finds no room
has counted its bytes by then; an inhibition of an object that does not exist
has been counted too; and a collection whose target is out of range has been
carried out, unless there was nothing for it to do.
-/

namespace PinnedHeap.Heap

variable {h k : Heap} {c : Call} {ids : List Nat} {t t' : Tally}

/-! ## Collections that change nothing -/

/-- There is nothing that a collection would change, the target aside. -/
structure AtRest (h : Heap) : Prop where
  unwanted : h.wantsCollection = false
  counted : h.storage = h.liveStorage
  pinned : h.unpinnedBuckets = []
  retained : ∀ id o, h.object? id = some o → o.isRetained = true

/-- If everything is retained, nothing is touched but the table and the count. -/
theorem SettlesAll.frame (hs : SettlesAll h ids t t' k) (hn : ids.Nodup)
    (hret : ∀ id ∈ ids, ∀ o, h.object? id = some o → o.marked = true ∧ o.isRetained = true) :
    k = { h with objects := k.objects, storage := k.storage } := by
  induction hs with
  | nil h t => rfl
  | @cons h k l id ids t u v head rest ih =>
    obtain ⟨hid, hn⟩ := List.nodup_cons.1 hn
    have hk := ih hn fun j hj o ho =>
      hret j (List.mem_cons_of_mem _ hj) o
        (head.object?_of_ne (fun heq => hid (heq ▸ hj)) ▸ ho)
    have hhead := hret id List.mem_cons_self
    cases head with
    | vacant ho => exact hk
    | reclaimed ho hm =>
      rw [(hhead _ ho).1] at hm
      cases hm
    | held ho hm hr =>
      rw [hk]
      rfl
    | moved ho hm hr hres =>
      rw [(hhead _ ho).2] at hr
      cases hr

theorem objects_eq (hlen : k.objects.length = h.objects.length)
    (hobj : ∀ id, k.object? id = h.object? id) : k.objects = h.objects := by
  apply List.ext_getElem hlen
  intro id hk hh
  have := hobj id
  rw [object?, object?, List.getElem?_eq_getElem hk, List.getElem?_eq_getElem hh] at this
  exact this

theorem marked_of_retained {o : Object} (hr : o.isRetained = true) : o.markIfLive.marked = true := by
  rw [Object.markIfLive, if_pos]
  rw [Object.isLive, hr, Bool.or_true]

/-- If everything is retained, a collection keeps the buckets as they are. -/
theorem Swept.frame (hk : Swept h k) (hret : ∀ id o, h.object? id = some o → o.isRetained = true) :
    k = { h with
      buckets := h.pinnedBuckets, spare := h.spare ++ h.unpinnedBuckets.map Bucket.reset,
      wantsCollection := false, objects := k.objects, storage := k.storage } := by
  obtain ⟨t, l, hset, rfl⟩ := hk
  have hl := hset.frame List.nodup_range fun id _ o ho => by
    rw [object?_prepare] at ho
    obtain ⟨p, hp, rfl⟩ := Option.map_eq_some_iff.1 ho
    exact ⟨marked_of_retained (hret id p hp), p.isRetained_markIfLive.trans (hret id p hp)⟩
  rw [hl]
  rfl

theorem pinnedBuckets_eq (hp : h.unpinnedBuckets = []) : h.pinnedBuckets = h.buckets := by
  rw [pinnedBuckets, List.filter_eq_self]
  intro b hb
  rcases mem_pinnedBuckets_or hb with hb | hb
  · exact (List.mem_filter.1 hb).2
  · rw [hp] at hb
    cases hb

/-- A collection leaves everything as it was only if there was nothing to do. -/
theorem Swept.eq_iff (hk : Swept h k) (hh : h.Settled) (hsup : k.Supplied) :
    k = h ↔ h.AtRest := by
  constructor
  · intro heq
    have hret : ∀ id o, h.object? id = some o → o.isRetained = true := by
      intro id o ho
      have hout := hk.outlives hh hsup.blocks id
      rw [heq] at hout
      cases hout with
      | vacant before after =>
        rw [ho] at before
        cases before
      | reclaimed before dead after =>
        rw [ho] at after
        cases after
      | @kept p a before live after content place =>
        rw [ho] at before
        cases before
        rw [ho, Option.some.injEq] at after
        exact place.1 (congrArg Object.address after).symm
    have hframe := hk.frame hret
    refine ⟨?_, ?_, ?_, hret⟩
    · rw [← hk.wantsCollection, heq]
    · rw [← hk.storage, heq]
    · have hbuckets := congrArg Heap.buckets hframe
      rw [heq] at hbuckets
      have hall := List.filter_eq_self.1 hbuckets.symm
      apply List.filter_eq_nil_iff.2
      intro b hb
      rw [hall b hb]
      exact Bool.false_ne_true
  · intro hrest
    have hobj : ∀ id, k.object? id = h.object? id := by
      intro id
      cases hk.outlives hh hsup.blocks id with
      | vacant before after => rw [before, after]
      | reclaimed before dead after =>
        have hr := hrest.retained _ _ before
        rw [Object.isLive, hr, Bool.or_true] at dead
        cases dead
      | kept before live after content place =>
        rw [before, after, place.2 (hrest.retained _ _ before)]
    rw [hk.frame hrest.retained, objects_eq hk.length hobj, hk.storage, ← hrest.counted,
      pinnedBuckets_eq hrest.pinned, hrest.pinned, List.map_nil, List.append_nil,
      ← hrest.unwanted]

/-! ## Calls that change something and break off -/

/-- The call is going to break off after it has changed something. -/
def Spills (h : Heap) : Call → Prop
  | .allocate len =>
    0 < len ∧ Word.roundUp len < Word.limit ∧ h.Exhausted (Word.roundUp len)
  | .inhibit id => h.object? id = none ∧ h.inhibitors + 1 < Word.limit
  | .collect =>
    h.inhibitors = 0 ∧ Word.limit ≤ h.config.targetFactor * h.liveStorage ∧ ¬ h.AtRest
  | .collectIfWanted =>
    h.wantsCollection = true ∧ h.inhibitors = 0 ∧
      Word.limit ≤ h.config.targetFactor * h.liveStorage
  | _ => False

theorem Swept.canRaise_iff (hk : Swept h k) :
    k.CanRaise ↔ h.config.targetFactor * h.liveStorage < Word.limit := by
  rw [CanRaise, hk.storage, hk.settings.config]

theorem spills_collect (hc : h.Collects c) (hin : h.inhibitors = 0) :
    h.Spills c ↔ Word.limit ≤ h.config.targetFactor * h.liveStorage ∧ ¬ h.AtRest := by
  cases c with
  | collect => exact ⟨fun hs => hs.2, fun hs => ⟨hin, hs⟩⟩
  | collectIfWanted =>
    have hwant : h.wantsCollection = true := hc
    constructor
    · intro hs
      refine ⟨hs.2.2, ?_⟩
      intro hrest
      rw [hrest.unwanted] at hwant
      cases hwant
    · intro hs
      exact ⟨hwant, hin, hs.1⟩
  | _ => cases hc

theorem Refuses.not_spills (hr : h.Refuses c) : ¬ h.Spills c := by
  intro hs
  cases c with
  | allocate len =>
    obtain ⟨hpos, hlt, hex⟩ := hs
    rcases hr with hzero | hge | hge
    · omega
    · exact hge hlt
    · exact hge hex.counted
  | inhibit id => exact hr hs.2
  | collect => exact hr
  | collectIfWanted => exact hr
  | _ => exact hs

theorem Reserves.not_exhausted {bytes a : Nat} (hr : Reserves h bytes a k) :
    ¬ h.Exhausted bytes := by
  intro hex
  cases hr with
  | inUse hb hfit =>
    have hlt := hex.full _ (List.mem_append_left _ (hb ▸ List.mem_append_cons_self))
    omega
  | recycled hnone hb hfit =>
    have hlt := hex.full _ (List.mem_append_right _ (hb ▸ List.mem_append_cons_self))
    omega
  | created hnone hspare hcan => exact hex.closed hcan

theorem not_spills_of_inhibited (hc : h.Collects c) (hin : 0 < h.inhibitors) : ¬ h.Spills c := by
  intro hs
  cases c with
  | collect => exact absurd hs.1 (by omega)
  | collectIfWanted => exact absurd hs.2.1 (by omega)
  | _ => cases hc

theorem Responds.not_spills {a : Answer} (hr : Responds h c (.ok a) k) : ¬ h.Spills c := by
  cases hr with
  | allocated hpos hres => exact fun hs => hres.not_exhausted hs.2.2
  | inhibited ho hlt =>
    intro hs
    rw [hs.1] at ho
    cases ho
  | deferred hc hin => exact not_spills_of_inhibited hc hin
  | collected hc hin hk hcan =>
    rw [spills_collect hc hin]
    rw [hk.canRaise_iff] at hcan
    omega
  | unwanted hw =>
    intro hs
    rw [hs.1] at hw
    cases hw
  | _ => exact fun hs => hs

/-- A call breaks off and leaves something changed in exactly these cases. -/
theorem Responds.spills_iff {r : Except Fault Answer} (hr : Responds h c r k) (hh : h.Settled)
    (hsup : k.Supplied) : (∃ e, r = .error e) ∧ k ≠ h ↔ h.Spills c := by
  cases r with
  | ok a =>
    refine iff_of_false ?_ hr.not_spills
    intro hboth
    obtain ⟨⟨e, he⟩, -⟩ := hboth
    cases he
  | error e =>
    rw [and_iff_right ⟨e, rfl⟩]
    cases hr with
    | refused href => exact iff_of_false (fun hne => hne rfl) href.not_spills
    | @exhausted len e hpos hlt hex =>
      refine iff_of_true ?_ ⟨hpos, hlt, hex⟩
      intro heq
      -- at least one byte has been counted
      have hstorage : h.storage + Word.roundUp len = h.storage := congrArg Heap.storage heq
      have hle := Word.le_roundUp len
      omega
    | inhibitedInVain ho hlt =>
      refine iff_of_true ?_ ⟨ho, hlt⟩
      intro heq
      have hin : h.inhibitors + 1 = h.inhibitors := congrArg Heap.inhibitors heq
      omega
    | collectedInVain hc hin hk hcan =>
      rw [hk.canRaise_iff, Nat.not_lt] at hcan
      rw [spills_collect hc hin, ne_eq, hk.eq_iff hh hsup, and_iff_right hcan]

/-- What a call that breaks off has changed, if it has changed something. -/
inductive Spoils (h : Heap) : Call → Heap → Prop where
  | allocate (len : Nat) : Spoils h (.allocate len) (h.charged (Word.roundUp len))
  | inhibit (id : Nat) : Spoils h (.inhibit id) { h with inhibitors := h.inhibitors + 1 }
  | collect {c : Call} {k : Heap} (hc : h.Collects c) (hk : Swept h k) : Spoils h c k

theorem Responds.spoils {e : Fault} (hr : Responds h c (.error e) k) (hne : k ≠ h) :
    Spoils h c k := by
  cases hr with
  | refused href => exact absurd rfl hne
  | exhausted hpos hlt hex => exact .allocate _
  | inhibitedInVain ho hlt => exact .inhibit _
  | collectedInVain hc hin hk hcan => exact .collect hc hk

/-- A call on a heap with any history breaks off and leaves something changed exactly if it
is one of those that spill, and then nothing more is changed than they say. -/
theorem Reached.fault_spills_iff {placement : Nat → Nat} {config : Config}
    (hr : Reached placement config h) (c : Call) (hs : (c.run.run h).state.Supplied) :
    ((∃ e, (c.run.run h).answer = .error e) ∧ (c.run.run h).state ≠ h ↔ h.Spills c) ∧
      (h.Spills c → Spoils h c (c.run.run h).state) := by
  have hresp : Responds h c (c.run.run h).answer (c.run.run h).state :=
    conforms hr.settled hr.supplied c hs
  have hiff := hresp.spills_iff hr.settled hs
  refine ⟨hiff, ?_⟩
  intro hspill
  obtain ⟨⟨e, he⟩, hne⟩ := hiff.2 hspill
  rw [he] at hresp
  exact hresp.spoils hne

/-- An inhibition of an object that does not exist stays in force. -/
theorem inhibit_counts_in_vain :
    (∃ e, ((Call.inhibit 7).run.run (create (spaced 0x10000 0x10000) {})).answer = .error e) ∧
      ((Call.inhibit 7).run.run (create (spaced 0x10000 0x10000) {})).state ≠
        create (spaced 0x10000 0x10000) {} := by
  have hr : Reached (spaced 0x10000 0x10000) {} (create (spaced 0x10000 0x10000) {}) := .create
  have hs := supplied_create (spaced 0x10000 0x10000) {}
  exact (hr.fault_spills_iff (.inhibit 7) ⟨hs.blocks, hs.owned_lt⟩).1.2 ⟨rfl, by decide⟩

end PinnedHeap.Heap
