import Mathlib.Data.List.Nodup
import Mathlib.Order.Bounds.Defs
import PinnedHeap.Heap.Stats
import PinnedHeap.Proofs.Heap.History

/-!
# The census of a heap

What exists is told three times: by the object table, by the ids that are
vacant and by the address index. Here the three are compared as lists, and so
are the counts that are taken from them: the counters count in the table, the
listing counts in the index, and the length of the table counts how many
objects there have been at one time.
-/

namespace PinnedHeap.Heap

variable {placement : Nat → Nat} {config : Config} {h k : Heap} {away : List Bucket}

/-- The objects that exist, as an address and an id each, in the order of the ids. -/
def roster (h : Heap) : List (Nat × Nat) :=
  (List.range h.objects.length).filterMap fun id => (h.object? id).map fun o => (o.address, id)

/-- The positions of the table at which there is no object, in order. -/
def gaps (h : Heap) : List Nat :=
  (List.range h.objects.length).filter fun id => (h.object? id).isNone

/-! ## The table in lists -/

theorem mem_roster {a id : Nat} :
    (a, id) ∈ h.roster ↔ ∃ o, h.object? id = some o ∧ o.address = a := by
  simp only [roster, List.mem_filterMap, List.mem_range, Option.map_eq_some_iff, Prod.mk.injEq]
  constructor
  · rintro ⟨j, -, o, ho, ha, rfl⟩
    exact ⟨o, ho, ha⟩
  · rintro ⟨o, ho, ha⟩
    exact ⟨id, object?_lt ho, o, ho, ha, rfl⟩

theorem mem_gaps {id : Nat} : id ∈ h.gaps ↔ id < h.objects.length ∧ h.object? id = none := by
  simp [gaps]

theorem nodup_roster (h : Heap) : h.roster.Nodup := by
  refine List.Nodup.filterMap ?_ List.nodup_range
  intro i j e hi hj
  obtain ⟨o, -, rfl⟩ := Option.map_eq_some_iff.1 hi
  obtain ⟨p, -, heq⟩ := Option.map_eq_some_iff.1 hj
  exact (Prod.mk.inj heq).2.symm

theorem nodup_gaps (h : Heap) : h.gaps.Nodup := List.nodup_range.filter _

theorem objects_eq_map (h : Heap) :
    h.objects = (List.range h.objects.length).map h.object? := by
  apply List.ext_getElem
  · simp
  · intro id hid hid'
    simp [object?, hid]

theorem length_roster (h : Heap) : h.roster.length = h.existing.length := by
  have hexisting : h.existing = (List.range h.objects.length).filterMap h.object? := by
    rw [existing, objects_eq_map, List.filterMap_map, List.length_map, List.length_range]
    rfl
  rw [hexisting, roster, List.length_filterMap_eq_countP, List.length_filterMap_eq_countP]
  simp only [Option.isSome_map]

/-- A position has an object or has none. -/
theorem length_existing_add_gaps (h : Heap) :
    h.existing.length + h.gaps.length = h.objects.length := by
  have hsplit := List.length_eq_countP_add_countP (fun id => (h.object? id).isSome)
    (l := List.range h.objects.length)
  have hnone : (fun id => (h.object? id).isNone) =
      fun id => decide ¬ (h.object? id).isSome = true := by
    funext id
    cases h.object? id <;> rfl
  rw [List.length_range] at hsplit
  rw [← length_roster, roster, gaps, List.length_filterMap_eq_countP,
    ← List.countP_eq_length_filter, hnone]
  simp only [Option.isSome_map]
  exact hsplit.symm

/-! ## The index and the vacant ids against the table -/

/-- The index has an entry for every object, and no other entries. -/
theorem Sound.index_perm (hh : h.Sound away) : h.index.entries.Perm h.roster := by
  have hnodup : h.index.entries.Nodup := by
    refine hh.index_sorted.imp ?_
    rintro d e hlt rfl
    exact Nat.lt_irrefl _ hlt
  rw [List.perm_ext_iff_of_nodup hnodup h.nodup_roster]
  rintro ⟨a, id⟩
  rw [mem_roster, hh.index_iff]

/-- The vacant ids are the empty positions of the table. -/
theorem Sound.vacant_perm (hh : h.Sound away) : h.vacant.Perm h.gaps := by
  rw [List.perm_ext_iff_of_nodup hh.vacant_nodup h.nodup_gaps]
  intro id
  rw [mem_gaps, hh.vacant_iff]

theorem Sound.size_index (hh : h.Sound away) : h.index.size = h.existing.length := by
  rw [AddressIndex.size, hh.index_perm.length_eq, length_roster]

theorem Sound.length_existing_add_vacant (hh : h.Sound away) :
    h.existing.length + h.vacant.length = h.objects.length := by
  rw [hh.vacant_perm.length_eq, length_existing_add_gaps]

/-! ## The listing -/

/-- What the listing says of the objects that some entries of the index name. -/
def entryNotices (h : Heap) (es : List (Nat × Nat)) : List Notice :=
  es.filterMap fun e =>
    (h.object? e.2).map fun o => .listingObject e.2 e.1 o.len o.flagsText o.retains

theorem run_listEntries {es : List (Nat × Nat)}
    (hes : ∀ e ∈ es, ∃ o, h.object? e.2 = some o) :
    (listEntries es).run h = ⟨.ok (), h, h.entryNotices es⟩ := by
  induction es with
  | nil => rfl
  | cons e es ih =>
    obtain ⟨a, id⟩ := e
    obtain ⟨o, ho⟩ := hes (a, id) List.mem_cons_self
    have hrest := ih fun e he => hes e (List.mem_cons_of_mem _ he)
    simp only at ho
    simp only [listEntries, Action.run_bind, run_get ho, Action.run_note, hrest, entryNotices,
      List.filterMap_cons, ho, Option.map_some]
    rfl

/-- What a listing says before it comes to the objects. -/
def countNotices (h : Heap) : List Notice :=
  [.listingHead, .listingCount "buckets in use" h.buckets.length,
    .listingCount "unused buckets" h.spare.length, .listingCount "storage in use" h.storage,
    .listingCount "total bytes" h.owned, .listingCount "target" h.target,
    .listingCount "objects" h.index.size, .listingCount "inhibitors" h.inhibitors]

theorem run_list (hes : ∀ e ∈ h.index.entries, ∃ o, h.object? e.2 = some o) :
    list.run h = ⟨.ok (), h, h.countNotices ++ h.entryNotices h.index.entries⟩ := by
  simp only [list, Action.run_bind, Action.run_read, Action.run_note, run_listEntries hes]
  rfl

theorem Sound.run_list (hh : h.Sound away) :
    list.run h = ⟨.ok (), h, h.countNotices ++ h.entryNotices h.index.entries⟩ := by
  refine Heap.run_list ?_
  rintro ⟨a, id⟩ he
  obtain ⟨o, ho, -⟩ := hh.index_iff.1 he
  exact ⟨o, ho⟩

/-- The count of the objects in a listing is the number of objects in the table. -/
theorem Sound.mem_list (hh : h.Sound away) {n : Nat} :
    .listingCount "objects" n ∈ (list.run h).notices ↔ n = h.stats.objects := by
  have hentries : .listingCount "objects" n ∉ h.entryNotices h.index.entries := by
    intro hmem
    obtain ⟨e, -, he⟩ := List.mem_filterMap.1 hmem
    obtain ⟨o, -, ho⟩ := Option.map_eq_some_iff.1 he
    cases ho
  rw [hh.run_list]
  simp [hentries, countNotices, hh.size_index, stats]

/-! ## The length of the table -/

theorem length_enter (h : Heap) (o : Object) :
    (h.enter o).objects.length = h.objects.length ∨
      ((h.enter o).vacant = [] ∧ (h.enter o).objects.length = h.objects.length + 1) := by
  unfold enter
  cases hv : h.vacant with
  | nil => exact .inr ⟨rfl, by simp⟩
  | cons id vacant => exact .inl (by simp [setObject])

/-- The table becomes longer only when there is an object at every position, and then by
one. -/
theorem Responds.length {c : Call} {r : Except Fault Answer} (hr : Responds h c r k) :
    k.objects.length = h.objects.length ∨
      (k.vacant = [] ∧ k.objects.length = h.objects.length + 1) := by
  cases hr with
  | @allocated len a l hpos hres =>
    rw [← hres.objects]
    exact length_enter { l with memory := _ } _
  | unrooted ho => exact .inl (by simp [setObject])
  | retained ho hcov hlt => exact .inl (by simp [setObject])
  | unretained ho hcov hpos => exact .inl (by simp [setObject])
  | collected hc hin hk hcan => exact .inl hk.length
  | collectedInVain hc hin hk hcan => exact .inl hk.length
  | _ => exact .inl rfl

/-- The three accounts of what exists, and the counts taken from them, agree in a heap to
which these heaps have led. -/
structure Counted (hs : List Heap) (h : Heap) : Prop where
  index : h.index.entries.Perm h.roster
  keys : (h.index.entries.map Prod.fst).Nodup
  vacant : h.vacant.Perm h.gaps
  size : h.index.size = h.stats.objects
  listed : (list.run h).answer = .ok () ∧
    ∀ n, .listingCount "objects" n ∈ (list.run h).notices ↔ n = h.stats.objects
  table : IsGreatest {n | ∃ k ∈ hs, k.stats.objects = n} h.objects.length

theorem Trail.isGreatest {hs : List Heap} (hr : Trail placement config hs h) :
    IsGreatest {n | ∃ k ∈ hs, k.stats.objects = n} h.objects.length := by
  induction hr with
  | create =>
    refine ⟨⟨_, List.mem_cons_self, rfl⟩, ?_⟩
    rintro n ⟨k, hk, rfl⟩
    rw [List.mem_singleton.1 hk]
    exact Nat.le_refl _
  | @call hs h c hr hsup ih =>
    obtain ⟨⟨l, hl, hcount⟩, hbound⟩ := ih
    have hset := hr.reached.settled
    have hresp := conforms hset hr.reached.supplied c hsup
    have hsum := (hresp.settled hset hsup).sound.length_existing_add_vacant
    have hlen := hresp.length
    constructor
    · -- a table that has grown is full; one that has not was filled before
      rcases hlen with hsame | ⟨hfull, -⟩
      · exact ⟨l, List.mem_cons_of_mem _ hl, hcount.trans hsame.symm⟩
      · refine ⟨_, List.mem_cons_self, ?_⟩
        rw [hfull] at hsum
        exact hsum
    · rintro n ⟨m, hm, rfl⟩
      rcases List.mem_cons.1 hm with rfl | hm
      · show (Heap.existing _).length ≤ _
        omega
      · have hle := hbound ⟨m, hm, rfl⟩
        omega

/-- Whatever was asked of a heap, and whichever calls have broken off, the table, the vacant
ids and the index agree about what exists. -/
theorem Trail.accounts_agree {hs : List Heap} (hr : Trail placement config hs h) :
    h.Counted hs where
  index := hr.reached.settled.sound.index_perm
  keys := by
    refine List.pairwise_map.2 (hr.reached.settled.sound.index_sorted.imp ?_)
    intro d e hlt heq
    omega
  vacant := hr.reached.settled.sound.vacant_perm
  size := hr.reached.settled.sound.size_index
  listed := by
    refine ⟨?_, fun n => hr.reached.settled.sound.mem_list⟩
    rw [hr.reached.settled.sound.run_list]
  table := hr.isGreatest

/-- Four objects of which two are given up, a request that cannot be met, a collection, and
one object more, which takes one of the two ids. -/
theorem crowded_accounts_agree :
    ∃ hs h, Trail (spaced 0x10000 0x10000) ⟨64, 64, 2, false⟩ hs h ∧
      h.objects.length = 4 ∧ h.stats.objects = 3 ∧ h.vacant = [1] ∧ h.Counted hs := by
  have hrun : ((create (spaced 0x10000 0x10000) ⟨64, 64, 2, false⟩).calls?
      [.allocate 5, .allocate 16, .allocate 3, .allocate 40, .unroot 1, .unroot 2,
        .allocate 0x1000000000000000, .collect, .allocate 9]).map
      (fun h => (h.objects.length, h.stats.objects, h.vacant)) = some (4, 3, [1]) := by
    decide +kernel
  obtain ⟨h, hcalls, heq⟩ := Option.map_eq_some_iff.1 hrun
  obtain ⟨hlength, hrest⟩ := Prod.mk.inj heq
  obtain ⟨hcount, hvacant⟩ := Prod.mk.inj hrest
  obtain ⟨ks, htrail⟩ := Trail.create.of_calls? hcalls
  exact ⟨_, h, htrail, hlength, hcount, hvacant, Trail.accounts_agree htrail⟩

end PinnedHeap.Heap
