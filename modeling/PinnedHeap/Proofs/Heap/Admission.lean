import PinnedHeap.Proofs.Heap.Unbroken

/-!
# Which requests are met

`Heap.Admits` says which requests for a buffer are met, in terms of what can
be counted and of the room that there is: a request may be far too large for
a bucket of its own and still fit into one that is there.

Nothing is supposed here of where the buckets lie or how much memory they
take up, nor that collections were completed: a heap that is `Called` has any
history whatever. What holds of all of them is `InWords`: everything lies at
words of memory.
-/

namespace PinnedHeap

theorem Word.add_mod_size {m n : Nat} (hm : m % size = 0) (hn : n % size = 0) :
    (m + n) % size = 0 := by
  simp only [size] at *
  omega

namespace Heap

variable {placement : Nat → Nat} {config : Config} {h k : Heap} {c : Call} {id len : Nat}
  {ids : List Nat} {t t' : Tally}

/-- The heap comes out of a new one by calls, whatever came of them and whatever memory it was
given. -/
inductive Called (placement : Nat → Nat) (config : Config) : Heap → Prop where
  | create : Called placement config (Heap.create placement config)
  | call {h : Heap} (c : Call) (hr : Called placement config h) :
      Called placement config (c.run.run h).state

/-! ## Whole words -/

/-- Buckets start at words and are used up word by word, objects are made of whole words, and
the empty positions are positions of the table. -/
structure InWords (h : Heap) : Prop where
  placement : ∀ n, h.placement n % Word.size = 0
  bucket : ∀ b ∈ h.allBuckets, b.start % Word.size = 0 ∧ b.used % Word.size = 0
  words : h.Worded
  vacant : ∀ id ∈ h.vacant, id < h.objects.length

theorem inWords_create (hp : ∀ n, placement n % Word.size = 0) :
    (create placement config).InWords where
  placement := hp
  bucket _ hb := absurd hb List.not_mem_nil
  words := (settled_create placement config).sound.worded
  vacant _ hid := absurd hid List.not_mem_nil

namespace InWords

/-- The objects may change as long as they keep their places. -/
theorem of_sites (hh : h.InWords) (hs : Sites h k) (hp : k.placement = h.placement)
    (hb : ∀ b ∈ k.allBuckets, b.start % Word.size = 0 ∧ b.used % Word.size = 0) : k.InWords where
  placement := hp ▸ hh.placement
  bucket := hb
  words := hh.words.of_sites hs
  vacant id hid := by
    rw [hs.vacant] at hid
    rw [hs.length]
    exact hh.vacant id hid

theorem alters (hh : h.InWords) (ha : Alters h k) : k.InWords := by
  refine hh.of_sites ha.sites ?_ ?_
  · cases ha <;> rfl
  · cases ha <;> exact hh.bucket

theorem setObject (hh : h.InWords) {o p : Object} (ho : h.object? id = some o)
    (hs : p.site = o.site) : (h.setObject id p).InWords :=
  hh.of_sites (.setObject ho hs) rfl hh.bucket

theorem charged (hh : h.InWords) (bytes : Nat) : (h.charged bytes).InWords :=
  hh.of_sites (.of_objects rfl rfl rfl) rfl hh.bucket

/-- The bucket that takes whole words starts the next ones at a word. -/
theorem reserve (hh : h.InWords) {bytes a : Nat} (hr : Reserves h bytes a k)
    (hw : bytes % Word.size = 0) : k.InWords ∧ a % Word.size = 0 := by
  obtain ⟨b, others, hs⟩ := hr.slot
  have hb : b.start % Word.size = 0 ∧ b.used % Word.size = 0 := by
    rcases hs.before with ⟨hperm, -⟩ | ⟨-, rfl, -, -⟩
    · exact hh.bucket b (hperm.mem_iff.2 List.mem_cons_self)
    · exact ⟨hh.placement _, rfl⟩
  refine ⟨hh.of_sites (.of_objects hr.objects hr.index hr.vacant) (by rw [hr.frame]; rfl) ?_, ?_⟩
  · intro c hc
    rcases List.mem_cons.1 (hs.after.mem_iff.1 hc) with rfl | hc
    · exact ⟨hb.1, Word.add_mod_size hb.2 hw⟩
    · exact hh.bucket c (hs.mem_others hc)
  · rw [hs.address]
    exact Word.add_mod_size hb.1 hb.2

theorem furnish (hh : h.InWords) (a len : Nat) : (h.furnish (.fresh a len)).InWords where
  placement := by
    rw [Heap.furnish, enter_frame]
    exact hh.placement
  bucket := by
    rw [allBuckets_furnish]
    exact hh.bucket
  words := hh.words.furnish a len
  vacant id hid := by
    simp only [Heap.furnish, enter] at hid ⊢
    split at hid
    · next i vacant hv =>
      have hmem : id ∈ h.vacant := by
        rw [show h.vacant = i :: vacant from hv]
        exact List.mem_cons_of_mem i hid
      simpa [Heap.setObject, hv] using hh.vacant id hmem
    · next hv =>
      rw [hv] at hid
      cases hid

/-! ## Collections, also those that break off -/

theorem reclaim (hh : h.InWords) {o : Object} (ho : h.object? id = some o) :
    (h.reclaim id o).InWords where
  placement := hh.placement
  bucket := hh.bucket
  words j p hp := by
    rw [object?_reclaim (object?_lt ho)] at hp
    split at hp
    · cases hp
    · exact hh.words j p hp
  vacant j hj := by
    show j < (h.objects.set id none).length
    rw [List.length_set]
    rcases List.mem_cons.1 hj with rfl | hj
    · exact object?_lt ho
    · exact hh.vacant j hj

theorem relocate (hh : h.InWords) {o : Object} (ho : h.object? id = some o) (a : Nat) :
    (h.relocate id o a).InWords where
  placement := hh.placement
  bucket := hh.bucket
  words j p hp := by
    rw [object?_relocate (object?_lt ho)] at hp
    split at hp
    · cases hp
      exact hh.words id o ho
    · exact hh.words j p hp
  vacant j hj := by
    show j < (h.objects.set id _).length
    rw [List.length_set]
    exact hh.vacant j hj

theorem unmark (hh : h.InWords) {o : Object} (ho : h.object? id = some o) :
    (h.setObject id { o with marked := false }).InWords := hh.setObject ho rfl

theorem settles (hh : h.InWords) (hs : Settles h id t t' k) : k.InWords := by
  cases hs with
  | vacant ho => exact hh
  | reclaimed ho hm => exact hh.reclaim ho
  | held ho hm hr =>
    exact (hh.unmark ho).of_sites (.of_objects rfl rfl rfl) rfl (hh.unmark ho).bucket
  | @moved o a l ho hm hr hres =>
    have hl := ((hh.unmark ho).reserve hres (hh.words id o ho)).1
    refine hl.relocate ?_ a
    rw [hres.object?, object?_setObject (object?_lt ho), if_pos rfl]

/-- A decision leaves everything at words, made or not. -/
theorem settle (hh : h.InWords) (id : Nat) (t : Tally) : ((settle id t).run h).state.InWords := by
  rcases settle_cases h id t (hh.words id) with
    ⟨t', k, ns, hrun, hs⟩ | ⟨o, e, k, ns, ho, hm, hrun, hframe, -⟩
  · rw [hrun]
    exact hh.settles hs
  · rw [hrun, hframe]
    exact (hh.unmark ho).of_sites (.of_objects rfl rfl rfl) rfl (hh.unmark ho).bucket

theorem settleAll (hh : h.InWords) (ids : List Nat) (t : Tally) :
    ((settleAll ids t).run h).state.InWords := by
  induction ids generalizing h t with
  | nil => exact hh
  | cons id ids ih =>
    have hk := hh.settle id t
    rw [Heap.settleAll, Action.run_bind]
    rcases hrun : (Heap.settle id t).run h with ⟨r, k, ns⟩
    rw [hrun] at hk
    cases r with
    | error e => exact hk
    | ok t' => exact ih hk t'

theorem prepare (hh : h.InWords) : h.prepare.InWords := by
  refine hh.of_sites (sites_prepare h) rfl ?_
  intro b hb
  have hmem := (perm_prepare h).mem_iff.1 (List.mem_append_left _ hb)
  rw [List.append_nil] at hmem
  exact hh.bucket b hmem

theorem retire (hh : h.InWords) {bs : List Bucket} (hb : ∀ b ∈ bs, b.start % Word.size = 0) :
    (h.retire bs).InWords := by
  refine hh.of_sites (.of_objects rfl rfl rfl) rfl ?_
  intro b hmem
  simp only [allBuckets, Heap.retire, List.mem_append, List.mem_map] at hmem
  rcases hmem with hmem | hmem | ⟨c, hc, rfl⟩
  · exact hh.bucket b (List.mem_append_left _ hmem)
  · exact hh.bucket b (List.mem_append_right _ hmem)
  · exact ⟨hb c hc, rfl⟩

theorem collectNow (hh : h.InWords) : (collectNow.run h).state.InWords := by
  have hall := hh.prepare.settleAll (List.range h.objects.length) {}
  rcases hrun : (Heap.settleAll (List.range h.objects.length) {}).run h.prepare with ⟨r, l, ns⟩
  rw [hrun] at hall
  cases r with
  | error e =>
    rw [run_collectNow_of_error hrun]
    exact hall
  | ok t =>
    have hl : (l.retire h.unpinnedBuckets).InWords := by
      refine hall.retire fun b hb => ?_
      exact (hh.bucket b (List.mem_append_left _ (List.mem_of_mem_filter hb))).1
    by_cases hcan : (l.retire h.unpinnedBuckets).CanRaise
    · obtain ⟨ms, hcol⟩ := (run_collectNow hrun).1 hcan
      rw [hcol]
      exact hl.of_sites (.of_objects rfl rfl rfl) rfl hl.bucket
    · obtain ⟨ms, hcol⟩ := (run_collectNow hrun).2 hcan
      rw [hcol]
      exact hl

theorem collects (hh : h.InWords) (hc : h.Collects c) : (c.run.run h).state.InWords := by
  rw [run_of_collects hc]
  by_cases hin : 0 < h.inhibitors
  · obtain ⟨ns, hrun⟩ := run_collect_of_inhibited hin
    rw [hrun]
    exact hh.of_sites (.of_objects rfl rfl rfl) rfl hh.bucket
  · rw [run_collect hin]
    exact hh.collectNow

/-! ## Every call -/

theorem allocate (hh : h.InWords) (len : Nat) : ((Call.allocate len).run.run h).state.InWords := by
  rcases run_allocate_cases h len with ⟨-, hrun⟩ | ⟨-, hrun⟩ | ⟨-, hrun⟩ | ⟨-, -, -, hrun⟩ |
    ⟨-, -, -, a, k, ns, hres, hrun⟩
  · rw [hrun]
    exact hh
  · rw [hrun]
    exact hh
  · rw [hrun]
    exact hh
  · rw [hrun]
    exact hh.charged _
  · rw [hrun]
    exact (hh.reserve hres (Word.roundUp_mod_size len)).1.furnish a len

theorem run (hh : h.InWords) (c : Call) : (c.run.run h).state.InWords := by
  by_cases hc : c.Stores
  · cases c with
    | allocate len => exact hh.allocate len
    | collect => exact hh.collects trivial
    | collectIfWanted =>
      cases hw : h.wantsCollection with
      | true => exact hh.collects hw
      | false =>
        rw [run_unwanted hw]
        exact hh
    | _ => cases hc
  · exact hh.alters (alters_run hc h)

end InWords

theorem Called.inWords (hr : Called placement config h) (hp : ∀ n, placement n % Word.size = 0) :
    h.InWords := by
  induction hr with
  | create => exact inWords_create hp
  | call c hr ih => exact ih.run c

/-! ## Requests -/

/-- The request for `len` bytes can be met: they can be counted, in whole words and together with
what is in use, and either a bucket has room for them, or one can be made that has. -/
def Admits (h : Heap) (len : Nat) : Prop :=
  0 < len ∧ Word.roundUp len < Word.limit ∧ h.storage + Word.roundUp len < Word.limit ∧
    ((∃ b ∈ h.allBuckets, Word.roundUp len ≤ b.free) ∨
      (bucketFactor * Word.roundUp len < Word.limit ∧
        Word.roundUp (max (bucketFactor * Word.roundUp len) h.config.smallestBucket) ≤
          Word.largestBlock))

instance (h : Heap) (len : Nat) : Decidable (h.Admits len) := inferInstanceAs (Decidable (_ ∧ _))

/-- A bucket that is made does not take the count of bytes in buckets out of the range of a word. -/
def Affords (h : Heap) (len : Nat) : Prop :=
  (∀ b ∈ h.allBuckets, b.free < Word.roundUp len) →
    h.newCapacity (Word.roundUp len) ≤ Word.largestBlock →
      h.owned + h.newCapacity (Word.roundUp len) < Word.limit

instance (h : Heap) (len : Nat) : Decidable (h.Affords len) :=
  inferInstanceAs (Decidable (_ → _ → _))

theorem Reserves.admits {a : Nat} (hres : Reserves h (Word.roundUp len) a k) (hpos : 0 < len)
    (hlt : Word.roundUp len < Word.limit) (hs : h.storage + Word.roundUp len < Word.limit) :
    h.Admits len := by
  refine ⟨hpos, hlt, hs, ?_⟩
  cases hres with
  | @inUse before behind b hb hfit =>
    refine .inl ⟨b, List.mem_append_left _ ?_, hfit⟩
    rw [hb]
    exact List.mem_append_right _ List.mem_cons_self
  | @recycled before behind b hnone hb hfit =>
    refine .inl ⟨b, List.mem_append_right _ ?_, hfit⟩
    rw [hb]
    exact List.mem_append_right _ List.mem_cons_self
  | created hnone hspare hcan => exact .inr ⟨hcan.product_lt, hcan.capacity_le⟩

theorem Exhausted.not_admits (hex : h.Exhausted (Word.roundUp len)) (haff : h.Affords len) :
    ¬ h.Admits len := by
  rintro ⟨-, -, -, ⟨b, hb, hfit⟩ | ⟨hproduct, hcapacity⟩⟩
  · exact absurd (hex.full b hb) (Nat.not_lt.2 hfit)
  · exact hex.closed ⟨hproduct, hcapacity, haff hex.full hcapacity⟩

/-- The faults with which a request can be turned down. -/
def admissionFaults : List Fault :=
  [.emptyBuffer, .productOverflow, .sumOverflow, .bucketTooLarge]

theorem creationFault_mem (h : Heap) (bytes : Nat) : h.creationFault bytes ∈ admissionFaults := by
  unfold creationFault
  split
  · simp [admissionFaults]
  · split <;> simp [admissionFaults]

/-- The new object has the id that its buffer names. -/
theorem object?_furnish_freshId (hv : ∀ id ∈ h.vacant, id < h.objects.length) (o : Object) :
    (h.furnish o).object? h.freshId = some o := by
  let cleared := { h with memory := h.memory.clear o.address o.footprint }
  show (cleared.enter o).object? cleared.freshId = some o
  rw [object?_enter (h := cleared) hv, if_pos rfl]

/-- The object with this id was made for a request of `len` bytes: whole words in the used part of
one bucket in use are its storage. -/
def Grants (h : Heap) (id len : Nat) : Prop :=
  ∃ a, h.object? id = some (.fresh a len) ∧ a % Word.size = 0 ∧
    ∃ b ∈ h.buckets, b.start ≤ a ∧ a + Word.roundUp len ≤ b.start + b.used ∧ b.used ≤ b.capacity

theorem InWords.grants (hh : h.InWords) {a : Nat} (hpos : 0 < len)
    (hres : Reserves h (Word.roundUp len) a k) :
    (k.furnish (.fresh a len)).Grants h.freshId len := by
  obtain ⟨hk, ha⟩ := hh.reserve hres (Word.roundUp_mod_size len)
  obtain ⟨b, others, hs⟩ := hres.slot
  have hbuckets : (k.furnish (.fresh a len)).buckets = k.buckets := by
    rw [Heap.furnish, enter_frame]
  refine ⟨a, ?_, ha, b.bump (Word.roundUp len), ?_, ?_, ?_, ?_⟩
  · rw [← hres.freshId]
    exact object?_furnish_freshId hk.vacant _
  · rw [hbuckets]
    exact hs.inUse
  · rw [hs.address, Bucket.start_bump]
    exact Nat.le_add_right _ _
  · rw [hs.address, Bucket.start_bump, Bucket.used_bump, Nat.add_assoc]
  · have hfits := hs.fits
    have hbytes := Word.le_roundUp len
    simp only [Bucket.free] at hfits
    rw [Bucket.used_bump, Bucket.capacity_bump]
    omega

/-- What comes of the request for `len` bytes: it is met exactly if the heap admits it, and then
something is granted; else it is turned down because a number got too large. -/
structure Decides (h : Heap) (len : Nat) (out : Outcome Notice Heap Answer) : Prop where
  met : (∃ x, out.answer = .ok x) ↔ h.Admits len
  granted : ∀ x, out.answer = .ok x → ∃ id, x = .buffer ⟨id, len⟩ ∧ out.state.Grants id len
  turnedDown : ∀ e, out.answer = .error e → e ∈ admissionFaults

theorem Decides.of_error {e : Fault} {ns : List Notice} (hnot : ¬ h.Admits len)
    (he : e ∈ admissionFaults) : h.Decides len ⟨.error e, k, ns⟩ where
  met := iff_of_false nofun hnot
  granted := nofun
  turnedDown f hf := by
    cases hf
    exact he

/-- On every heap, whatever its history, a request is met exactly if the heap `Admits` it, as long
as the bytes in buckets can be counted. What is handed out is whole words of one bucket. A bucket
is never asked for more than it has left, nor for a part of a word: no request is turned down for
such a reason. -/
theorem Called.allocation_succeeds_iff (hr : Called placement config h)
    (hp : ∀ n, placement n % Word.size = 0) (haff : h.Affords len) :
    h.Decides len ((Call.allocate len).run.run h) := by
  rcases run_allocate_cases h len with ⟨rfl, hrun⟩ | ⟨hlt, hrun⟩ | ⟨hs, hrun⟩ |
    ⟨hpos, hlt, hex, hrun⟩ | ⟨hpos, hlt, hs, a, k, ns, hres, hrun⟩
  · rw [hrun]
    refine .of_error ?_ (by simp [admissionFaults])
    rintro ⟨hpos, -⟩
    exact absurd hpos (Nat.lt_irrefl 0)
  · rw [hrun]
    refine .of_error ?_ (by simp [admissionFaults])
    rintro ⟨-, hlt', -⟩
    exact hlt hlt'
  · rw [hrun]
    refine .of_error ?_ (by simp [admissionFaults])
    rintro ⟨-, -, hs', -⟩
    exact hs hs'
  · rw [hrun]
    exact .of_error (hex.not_admits haff) (creationFault_mem h _)
  · rw [hrun]
    refine ⟨iff_of_true ⟨_, rfl⟩ (hres.admits hpos hlt hs), ?_, nofun⟩
    intro x hx
    cases hx
    exact ⟨h.freshId, rfl, (hr.inWords hp).grants hpos hres⟩

/-- A heap of large buckets, with next to nothing in the only one. -/
def roomy : Heap :=
  ((Call.allocate 8).run.run
    (create (spaced 0x10000 0x4000000000000000) ⟨0x4000000000000000, 0, 8, false⟩)).state

/-- A request of `2 ^ 61` bytes fits into the bucket that there is, although none could be made for
it; twice as much fits nowhere. -/
theorem roomy_allocation_succeeds :
    ¬ bucketFactor * Word.roundUp 0x2000000000000000 < Word.limit ∧
      roomy.Admits 0x2000000000000000 ∧ ¬ roomy.Admits 0x4000000000000000 ∧
      roomy.Decides 0x2000000000000000 ((Call.allocate 0x2000000000000000).run.run roomy) ∧
      roomy.Decides 0x4000000000000000 ((Call.allocate 0x4000000000000000).run.run roomy) := by
  have hcalled : Called (spaced 0x10000 0x4000000000000000) ⟨0x4000000000000000, 0, 8, false⟩
      roomy := .call (.allocate 8) .create
  have hp : ∀ n, spaced 0x10000 0x4000000000000000 n % Word.size = 0 :=
    spaced_mod_size (by decide) (by decide)
  refine ⟨by decide, by decide +kernel, by decide +kernel, ?_, ?_⟩
  · exact Called.allocation_succeeds_iff hcalled hp (by decide +kernel)
  · exact Called.allocation_succeeds_iff hcalled hp (by decide +kernel)

end Heap

end PinnedHeap
