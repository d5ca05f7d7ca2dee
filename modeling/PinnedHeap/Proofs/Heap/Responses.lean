import PinnedHeap.Heap.Call
import PinnedHeap.Proofs.Heap.Collection
import PinnedHeap.Proofs.Heap.Enter
import PinnedHeap.Proofs.Heap.Lookup

/-!
# Responses to calls

`Heap.Responds` lists everything that can come of a call: one way in which it
is answered for most calls, and the ways in which it breaks off. A call that
`Refuses` a request has changed nothing; the three that have changed something
by then are listed one by one.

Whatever else is proved of calls is proved by going through this list.
-/

namespace PinnedHeap

/-- The object that a request of `len` bytes at an address makes. -/
def Object.fresh (address len : Nat) : Object where
  address
  len
  footprint := Word.roundUp len
  rooted := true
  marked := false
  retains := 0

namespace Heap

variable {h k : Heap} {c : Call} {r : Except Fault Answer}

/-- The call fails a check that is made before anything is changed. -/
def Refuses (h : Heap) : Call → Prop
  | .allocate len =>
    len = 0 ∨ ¬ Word.roundUp len < Word.limit ∨ ¬ h.storage + Word.roundUp len < Word.limit
  | .addressOf id => h.object? id = none
  | .write id offset bytes =>
    ∀ o, h.object? id = some o → ¬ offset + bytes.length ≤ o.len
  | .read id => h.object? id = none
  | .unroot id => h.object? id = none
  | .retain a => ∀ id o, h.object? id = some o → o.Covers a → ¬ o.retains + 1 < Word.limit
  | .unretain a => ∀ id o, h.object? id = some o → o.Covers a → o.retains = 0
  | .isRetained _ => False
  | .inhibit _ => ¬ h.inhibitors + 1 < Word.limit
  | .allow => h.inhibitors = 0
  | .collect => False
  | .collectIfWanted => False
  | .poke _ _ => False

/-- The call starts a collection, unless collections are put off. -/
def Collects (h : Heap) : Call → Prop
  | .collect => True
  | .collectIfWanted => h.wantsCollection = true
  | _ => False

/-- There is no room for the bytes and no way to make some. -/
structure Exhausted (h : Heap) (bytes : Nat) : Prop where
  counted : h.storage + bytes < Word.limit
  full : ∀ b ∈ h.allBuckets, b.free < bytes
  closed : ¬ h.CanCreate bytes

/-- The heap with room taken for an object, which is zeroed and entered. -/
def furnish (h : Heap) (o : Object) : Heap :=
  { h with memory := h.memory.clear o.address o.footprint }.enter o

/-- What comes of a call: the answer or the fault, and the heap afterwards. -/
inductive Responds (h : Heap) : Call → Except Fault Answer → Heap → Prop where
  | allocated {len a : Nat} {k : Heap} (hpos : 0 < len)
      (hres : Reserves h (Word.roundUp len) a k) :
      Responds h (.allocate len) (.ok (.buffer ⟨h.freshId, len⟩)) (k.furnish (.fresh a len))
  | address {id : Nat} {o : Object} (ho : h.object? id = some o) :
      Responds h (.addressOf id) (.ok (.address o.address)) h
  | written {id offset : Nat} {bytes : List UInt8} {o : Object} (ho : h.object? id = some o)
      (hin : offset + bytes.length ≤ o.len) :
      Responds h (.write id offset bytes) (.ok .done)
        { h with memory := h.memory.write (o.address + offset) bytes }
  | content {id : Nat} {o : Object} (ho : h.object? id = some o) :
      Responds h (.read id) (.ok (.content (h.memory.read o.address o.len))) h
  | unrooted {id : Nat} {o : Object} (ho : h.object? id = some o) :
      Responds h (.unroot id) (.ok .done) (h.setObject id { o with rooted := false })
  | retained {a id : Nat} {o : Object} (ho : h.object? id = some o) (hcov : o.Covers a)
      (hlt : o.retains + 1 < Word.limit) :
      Responds h (.retain a) (.ok .done) (h.setObject id { o with retains := o.retains + 1 })
  | unretained {a id : Nat} {o : Object} (ho : h.object? id = some o) (hcov : o.Covers a)
      (hpos : 0 < o.retains) :
      Responds h (.unretain a) (.ok .done) (h.setObject id { o with retains := o.retains - 1 })
  | flag {a : Nat} {b : Bool}
      (hb : b = true ↔ ∃ id o, h.object? id = some o ∧ o.Covers a ∧ 0 < o.retains) :
      Responds h (.isRetained a) (.ok (.flag b)) h
  | inhibited {id : Nat} {o : Object} (ho : h.object? id = some o)
      (hlt : h.inhibitors + 1 < Word.limit) :
      Responds h (.inhibit id) (.ok (.address o.address)) { h with inhibitors := h.inhibitors + 1 }
  | allowed (hpos : 0 < h.inhibitors) :
      Responds h .allow (.ok .done) { h with inhibitors := h.inhibitors - 1 }
  | deferred {c : Call} (hc : h.Collects c) (hin : 0 < h.inhibitors) :
      Responds h c (.ok (.report none)) { h with wantsCollection := true }
  | collected {c : Call} {k : Heap} {r : Report} (hc : h.Collects c) (hin : h.inhibitors = 0)
      (hk : Swept h k) (hcan : k.CanRaise) : Responds h c (.ok (.report (some r))) k.raised
  | unwanted (hw : h.wantsCollection = false) :
      Responds h .collectIfWanted (.ok (.report none)) h
  | poked {a : Nat} {bytes : List UInt8} :
      Responds h (.poke a bytes) (.ok .done) { h with memory := h.memory.write a bytes }
  | refused {c : Call} {e : Fault} (hr : h.Refuses c) : Responds h c (.error e) h
  | exhausted {len : Nat} {e : Fault} (hpos : 0 < len) (hlt : Word.roundUp len < Word.limit)
      (hex : h.Exhausted (Word.roundUp len)) :
      Responds h (.allocate len) (.error e) (h.charged (Word.roundUp len))
  | inhibitedInVain {id : Nat} {e : Fault} (ho : h.object? id = none)
      (hlt : h.inhibitors + 1 < Word.limit) :
      Responds h (.inhibit id) (.error e) { h with inhibitors := h.inhibitors + 1 }
  | collectedInVain {c : Call} {k : Heap} {e : Fault} (hc : h.Collects c)
      (hin : h.inhibitors = 0) (hk : Swept h k) (hcan : ¬ k.CanRaise) :
      Responds h c (.error e) k

/-! ## Objects by their ids -/

theorem run_get {id : Nat} {o : Object} (ho : h.object? id = some o) :
    (get id).run h = ⟨.ok o, h, []⟩ := by
  simp only [get, Action.run_bind, Action.run_read, object_eq_ok ho, Action.run_ofExcept_ok,
    List.nil_append]

theorem run_get_of_none {id : Nat} (ho : h.object? id = none) :
    (get id).run h = ⟨.error (.noSuchObject id), h, []⟩ := by
  simp only [get, Action.run_bind, Action.run_read, object, ho, Action.run_ofExcept_error,
    List.nil_append]

/-- What comes of the call is on the list. -/
def Conforms (h : Heap) (c : Call) : Prop :=
  Responds h c (c.run.run h).answer (c.run.run h).state

theorem conforms_addressOf (h : Heap) (id : Nat) : h.Conforms (.addressOf id) := by
  simp only [Conforms, Call.run, Heap.addressOf, Action.run_bind]
  cases ho : h.object? id with
  | none =>
    simp only [run_get_of_none ho]
    exact .refused ho
  | some o =>
    simp only [run_get ho]
    exact .address ho

theorem run_writeAt {id offset : Nat} {bytes : List UInt8} {o : Object} (hh : h.Settled)
    (hsup : h.Supplied) (ho : h.object? id = some o) (hin : offset + bytes.length ≤ o.len) :
    (writeAt id offset bytes).run h =
      ⟨.ok (), { h with memory := h.memory.write (o.address + offset) bytes }, []⟩ := by
  have hstop := hh.sound.stop_lt (by rw [List.append_nil]; exact hsup.blocks) ho
  have hlen := (hh.sound.object ho).len_le
  have hcheck : o.checkRange offset bytes.length = .ok () := by
    rw [Object.checkRange, if_pos ⟨hin, by omega⟩]
  simp only [writeAt, Action.run_bind, run_get ho, hcheck]
  rfl

theorem run_write {id offset : Nat} {bytes : List UInt8} {o : Object} (hh : h.Settled)
    (hsup : h.Supplied) (ho : h.object? id = some o) (hin : offset + bytes.length ≤ o.len) :
    (Call.write id offset bytes).run.run h =
      ⟨.ok .done, { h with memory := h.memory.write (o.address + offset) bytes }, []⟩ := by
  simp only [Call.run, Action.run_bind, run_writeAt hh hsup ho hin]
  rfl

/-- A write that does not fit writes nothing. -/
theorem run_write_out {id offset : Nat} {bytes : List UInt8} {o : Object}
    (ho : h.object? id = some o) (hout : ¬ offset + bytes.length ≤ o.len) :
    (Call.write id offset bytes).run.run h =
      ⟨.error (.outOfBounds offset bytes.length o.len), h, []⟩ := by
  have hcheck : o.checkRange offset bytes.length =
      .error (.outOfBounds offset bytes.length o.len) := by
    rw [Object.checkRange, if_neg fun hboth => hout hboth.1]
  simp only [Call.run, writeAt, Action.run_bind, run_get ho, hcheck]
  rfl

theorem conforms_write (hh : h.Settled) (hsup : h.Supplied) (id offset : Nat)
    (bytes : List UInt8) : h.Conforms (.write id offset bytes) := by
  cases ho : h.object? id with
  | none =>
    simp only [Conforms, Call.run, writeAt, Action.run_bind, run_get_of_none ho]
    apply Responds.refused
    intro o hsome
    rw [ho] at hsome
    cases hsome
  | some o =>
    by_cases hin : offset + bytes.length ≤ o.len
    · simp only [Conforms, run_write hh hsup ho hin]
      exact .written ho hin
    · simp only [Conforms, run_write_out ho hin]
      apply Responds.refused
      intro p hp
      rw [ho] at hp
      cases hp
      exact hin

theorem conforms_read (h : Heap) (id : Nat) : h.Conforms (.read id) := by
  simp only [Conforms, Call.run, contentOf, Action.run_bind]
  cases ho : h.object? id with
  | none =>
    simp only [run_get_of_none ho]
    exact .refused ho
  | some o =>
    simp only [run_get ho]
    exact .content ho

theorem conforms_unroot (h : Heap) (id : Nat) : h.Conforms (.unroot id) := by
  simp only [Conforms, Call.run, Heap.unroot, Action.run_bind]
  cases ho : h.object? id with
  | none =>
    simp only [run_get_of_none ho]
    exact .refused ho
  | some o =>
    simp only [run_get ho]
    exact .unrooted ho

/-! ## Objects by their addresses -/

theorem find_cases (hh : h.Settled) (hsup : h.Supplied) (a : Nat) :
    (∃ id o, h.object? id = some o ∧ o.Covers a ∧ h.find? a = .ok (some id)) ∨
      ((∀ id o, h.object? id = some o → ¬ o.Covers a) ∧ h.find? a = .ok none) := by
  refine hh.sound.find?_cases ?_ a
  rw [List.append_nil]
  exact hsup.blocks

theorem find?_of_covers (hh : h.Settled) (hsup : h.Supplied) {id a : Nat} {o : Object}
    (ho : h.object? id = some o) (hcov : o.Covers a) : h.find? a = .ok (some id) :=
  (hh.sound.find?_eq_some (by rw [List.append_nil]; exact hsup.blocks)).2 ⟨o, ho, hcov⟩

/-- The object that covers an address is the only one. -/
theorem eq_of_covers (hh : h.Settled) {i j a : Nat} {o p : Object} (ho : h.object? i = some o)
    (hp : h.object? j = some p) (hoa : o.Covers a) (hpa : p.Covers a) : i = j ∧ o = p := by
  have hij := hh.sound.covers_unique ho hp hoa hpa
  subst hij
  rw [ho] at hp
  cases hp
  exact ⟨rfl, rfl⟩

theorem run_retain {id a : Nat} {o : Object} (hfind : h.find? a = .ok (some id))
    (ho : h.object? id = some o) :
    (Call.retain a).run.run h =
      if o.retains + 1 < Word.limit then
        ⟨.ok .done, h.setObject id { o with retains := o.retains + 1 },
          [.retained a id (o.retains + 1)]⟩
      else ⟨.error .sumOverflow, h, []⟩ := by
  simp only [Call.run, Heap.retain, Action.run_bind, Action.run_read, hfind, Action.run_ofExcept_ok,
    run_get ho]
  by_cases hlt : o.retains + 1 < Word.limit
  · rw [Word.add_of_lt hlt, if_pos hlt]
    rfl
  · rw [Word.add_eq_error.2 ⟨hlt, rfl⟩, if_neg hlt]
    rfl

theorem run_unretain {id a : Nat} {o : Object} (hfind : h.find? a = .ok (some id))
    (ho : h.object? id = some o) :
    (Call.unretain a).run.run h =
      if 0 < o.retains then
        ⟨.ok .done, h.setObject id { o with retains := o.retains - 1 },
          [.unretained a id (o.retains - 1)]⟩
      else ⟨.error (.notRetained a), h, []⟩ := by
  simp only [Call.run, Heap.unretain, Action.run_bind, Action.run_read, hfind, Action.run_ofExcept_ok,
    run_get ho, Action.run_require]
  by_cases hpos : 0 < o.retains
  · have hr : o.isRetained = true := decide_eq_true hpos
    rw [if_pos hpos, if_pos hr]
    rfl
  · have hr : ¬ o.isRetained = true := fun hr => hpos (of_decide_eq_true hr)
    rw [if_neg hpos, if_neg hr]
    rfl

theorem run_isRetained {id a : Nat} {o : Object} (hfind : h.find? a = .ok (some id))
    (ho : h.object? id = some o) :
    (Call.isRetained a).run.run h = ⟨.ok (.flag (decide (0 < o.retains))), h, []⟩ := by
  simp only [Call.run, Heap.isRetained, Action.run_bind, Action.run_read, hfind,
    Action.run_ofExcept_ok, run_get ho]
  rfl

theorem run_retain_of_none {a : Nat} (hfind : h.find? a = .ok none) :
    (Call.retain a).run.run h = ⟨.error (.nothingToRetain a), h, []⟩ := by
  simp only [Call.run, Heap.retain, Action.run_bind, Action.run_read, hfind, Action.run_ofExcept_ok]
  rfl

theorem run_unretain_of_none {a : Nat} (hfind : h.find? a = .ok none) :
    (Call.unretain a).run.run h = ⟨.error (.notRetained a), h, []⟩ := by
  simp only [Call.run, Heap.unretain, Action.run_bind, Action.run_read, hfind, Action.run_ofExcept_ok]
  rfl

theorem run_isRetained_of_none {a : Nat} (hfind : h.find? a = .ok none) :
    (Call.isRetained a).run.run h = ⟨.ok (.flag false), h, []⟩ := by
  simp only [Call.run, Heap.isRetained, Action.run_bind, Action.run_read, hfind,
    Action.run_ofExcept_ok]
  rfl

theorem conforms_retain (hh : h.Settled) (hsup : h.Supplied) (a : Nat) :
    h.Conforms (.retain a) := by
  rcases find_cases hh hsup a with ⟨id, o, ho, hcov, hfind⟩ | ⟨hnone, hfind⟩
  · rw [Conforms, run_retain hfind ho]
    by_cases hlt : o.retains + 1 < Word.limit
    · rw [if_pos hlt]
      exact .retained ho hcov hlt
    · rw [if_neg hlt]
      apply Responds.refused
      intro j p hp hpa
      obtain ⟨-, rfl⟩ := eq_of_covers hh ho hp hcov hpa
      exact hlt
  · rw [Conforms, run_retain_of_none hfind]
    exact .refused fun id o ho hcov => absurd hcov (hnone id o ho)

theorem conforms_unretain (hh : h.Settled) (hsup : h.Supplied) (a : Nat) :
    h.Conforms (.unretain a) := by
  rcases find_cases hh hsup a with ⟨id, o, ho, hcov, hfind⟩ | ⟨hnone, hfind⟩
  · rw [Conforms, run_unretain hfind ho]
    by_cases hpos : 0 < o.retains
    · rw [if_pos hpos]
      exact .unretained ho hcov hpos
    · rw [if_neg hpos]
      apply Responds.refused
      intro j p hp hpa
      obtain ⟨-, rfl⟩ := eq_of_covers hh ho hp hcov hpa
      omega
  · rw [Conforms, run_unretain_of_none hfind]
    exact .refused fun id o ho hcov => absurd hcov (hnone id o ho)

/-- What comes of retaining an address of this object. -/
theorem Responds.of_retain {id a : Nat} {o : Object} (hr : Responds h (.retain a) r k)
    (hh : h.Settled) (ho : h.object? id = some o) (hcov : o.Covers a) :
    (o.retains + 1 < Word.limit ∧ r = .ok .done ∧
        k = h.setObject id { o with retains := o.retains + 1 }) ∨
      (¬ o.retains + 1 < Word.limit ∧ (∃ e, r = .error e) ∧ k = h) := by
  cases hr with
  | retained hp hpa hlt =>
    obtain ⟨rfl, rfl⟩ := eq_of_covers hh ho hp hcov hpa
    exact .inl ⟨hlt, rfl, rfl⟩
  | refused href => exact .inr ⟨href id o ho hcov, ⟨_, rfl⟩, rfl⟩
  | deferred hcol _ => cases hcol
  | collected hcol _ _ _ => cases hcol
  | collectedInVain hcol _ _ _ => cases hcol

/-- What comes of giving an address of this object back. -/
theorem Responds.of_unretain {id a : Nat} {o : Object} (hr : Responds h (.unretain a) r k)
    (hh : h.Settled) (ho : h.object? id = some o) (hcov : o.Covers a) :
    (0 < o.retains ∧ r = .ok .done ∧ k = h.setObject id { o with retains := o.retains - 1 }) ∨
      (o.retains = 0 ∧ (∃ e, r = .error e) ∧ k = h) := by
  cases hr with
  | unretained hp hpa hpos =>
    obtain ⟨rfl, rfl⟩ := eq_of_covers hh ho hp hcov hpa
    exact .inl ⟨hpos, rfl, rfl⟩
  | refused href => exact .inr ⟨href id o ho hcov, ⟨_, rfl⟩, rfl⟩
  | deferred hcol _ => cases hcol
  | collected hcol _ _ _ => cases hcol
  | collectedInVain hcol _ _ _ => cases hcol

theorem conforms_isRetained (hh : h.Settled) (hsup : h.Supplied) (a : Nat) :
    h.Conforms (.isRetained a) := by
  rcases find_cases hh hsup a with ⟨id, o, ho, hcov, hfind⟩ | ⟨hnone, hfind⟩
  · rw [Conforms, run_isRetained hfind ho]
    refine .flag ⟨fun hr => ⟨id, o, ho, hcov, of_decide_eq_true hr⟩, ?_⟩
    intro ⟨j, p, hp, hpa, hpos⟩
    obtain ⟨-, rfl⟩ := eq_of_covers hh ho hp hcov hpa
    exact decide_eq_true hpos
  · rw [Conforms, run_isRetained_of_none hfind]
    refine .flag ⟨?_, ?_⟩
    · intro hf
      cases hf
    · intro ⟨id, o, ho, hcov, _⟩
      exact absurd hcov (hnone id o ho)

/-! ## New objects -/

theorem Reserves.freshId {bytes a : Nat} (hr : Reserves h bytes a k) : k.freshId = h.freshId := by
  simp only [Heap.freshId, hr.vacant, hr.objects]

theorem run_allocate_zero (h : Heap) :
    (Call.allocate 0).run.run h = ⟨.error .emptyBuffer, h, []⟩ := rfl

theorem run_allocate_of_not_lt {len : Nat} (hpos : 0 < len)
    (hlt : ¬ Word.roundUp len < Word.limit) :
    (Call.allocate len).run.run h = ⟨.error .productOverflow, h, []⟩ := by
  have hmul : Word.mul (Word.count len) Word.size = .error .productOverflow :=
    Word.mul_eq_error.2 ⟨hlt, rfl⟩
  simp only [Call.run, Heap.allocate, Action.run_bind, Action.run_require, if_pos hpos, hmul]
  rfl

/-- What is left of an allocation is to reserve room and to furnish it. -/
theorem run_allocate {len : Nat} (hpos : 0 < len) (hlt : Word.roundUp len < Word.limit) :
    (Call.allocate len).run.run h =
      match (reserve (Word.roundUp len)).run h with
      | ⟨.ok a, k, ns⟩ => ⟨.ok (.buffer ⟨k.freshId, len⟩), k.furnish (.fresh a len), ns⟩
      | ⟨.error e, k, ns⟩ => ⟨.error e, k, ns⟩ := by
  have hmul : Word.mul (Word.count len) Word.size = .ok (Word.roundUp len) := Word.mul_of_lt hlt
  simp only [Call.run, Heap.allocate, Action.run_bind, Action.run_require, if_pos hpos, hmul,
    Action.run_ofExcept_ok, List.nil_append]
  rcases (reserve (Word.roundUp len)).run h with ⟨r, k, ns⟩
  cases r with
  | error e => rfl
  | ok a =>
    simp only [Action.run_update, run_enroll, Action.run_pure, List.append_nil]
    rfl

/-- A request for no bytes, or for more than a word can count, is refused; any other one is met,
or there is no room for it and none can be made. -/
theorem run_allocate_cases (h : Heap) (len : Nat) :
    (len = 0 ∧ (Call.allocate len).run.run h = ⟨.error .emptyBuffer, h, []⟩) ∨
    (¬ Word.roundUp len < Word.limit ∧
      (Call.allocate len).run.run h = ⟨.error .productOverflow, h, []⟩) ∨
    (¬ h.storage + Word.roundUp len < Word.limit ∧
      (Call.allocate len).run.run h = ⟨.error .sumOverflow, h, []⟩) ∨
    (0 < len ∧ Word.roundUp len < Word.limit ∧ h.Exhausted (Word.roundUp len) ∧
      (Call.allocate len).run.run h =
        ⟨.error (h.creationFault (Word.roundUp len)), h.charged (Word.roundUp len), []⟩) ∨
    (0 < len ∧ Word.roundUp len < Word.limit ∧ h.storage + Word.roundUp len < Word.limit ∧
      ∃ a k ns, Reserves h (Word.roundUp len) a k ∧
        (Call.allocate len).run.run h =
          ⟨.ok (.buffer ⟨h.freshId, len⟩), k.furnish (.fresh a len), ns⟩) := by
  rcases Nat.eq_zero_or_pos len with rfl | hpos
  · exact .inl ⟨rfl, run_allocate_zero h⟩
  by_cases hlt : Word.roundUp len < Word.limit
  swap
  · exact .inr (.inl ⟨hlt, run_allocate_of_not_lt hpos hlt⟩)
  have hrun := run_allocate (h := h) hpos hlt
  rcases reserve_cases h (Word.roundUp_mod_size len) with
    ⟨hs, a, k, ns, hreserve, hres⟩ | ⟨hs, hreserve⟩ | ⟨hs, hfull, hcan, hreserve⟩
  · rw [hreserve] at hrun
    have hid : k.freshId = h.freshId := hres.freshId
    exact .inr (.inr (.inr (.inr ⟨hpos, hlt, hs, a, k, ns, hres, hid ▸ hrun⟩)))
  · rw [hreserve] at hrun
    exact .inr (.inr (.inl ⟨hs, hrun⟩))
  · rw [hreserve] at hrun
    exact .inr (.inr (.inr (.inl ⟨hpos, hlt, ⟨hs, hfull, hcan⟩, hrun⟩)))

theorem conforms_allocate (h : Heap) (len : Nat) : h.Conforms (.allocate len) := by
  rw [Conforms]
  rcases run_allocate_cases h len with ⟨hzero, hrun⟩ | ⟨hlt, hrun⟩ | ⟨hs, hrun⟩ |
    ⟨hpos, hlt, hex, hrun⟩ | ⟨hpos, -, -, a, k, ns, hres, hrun⟩
  · rw [hrun]
    exact .refused (.inl hzero)
  · rw [hrun]
    exact .refused (.inr (.inl hlt))
  · rw [hrun]
    exact .refused (.inr (.inr hs))
  · rw [hrun]
    exact .exhausted hpos hlt hex
  · rw [hrun]
    exact .allocated hpos hres

/-! ## Collections -/

theorem run_inhibit_full (hfull : ¬ h.inhibitors + 1 < Word.limit) (id : Nat) :
    (inhibit id).run h = ⟨.error .sumOverflow, h, []⟩ := by
  simp only [inhibit, Action.run_bind, Action.run_read, Word.add_eq_error.2 ⟨hfull, rfl⟩]
  rfl

theorem run_inhibit {id : Nat} {o : Object} (ho : h.object? id = some o)
    (hlt : h.inhibitors + 1 < Word.limit) :
    (inhibit id).run h = ⟨.ok o.address, { h with inhibitors := h.inhibitors + 1 }, []⟩ := by
  have ho' : Heap.object? { h with inhibitors := h.inhibitors + 1 } id = some o := ho
  simp only [inhibit, addressOf, Action.run_bind, Action.run_read, Word.add_of_lt hlt,
    Action.run_ofExcept_ok, Action.run_update, run_get ho']
  rfl

theorem run_inhibit_of_none {id : Nat} (ho : h.object? id = none)
    (hlt : h.inhibitors + 1 < Word.limit) :
    (inhibit id).run h =
      ⟨.error (.noSuchObject id), { h with inhibitors := h.inhibitors + 1 }, []⟩ := by
  have ho' : Heap.object? { h with inhibitors := h.inhibitors + 1 } id = none := ho
  simp only [inhibit, addressOf, Action.run_bind, Action.run_read, Word.add_of_lt hlt,
    Action.run_ofExcept_ok, Action.run_update, run_get_of_none ho']
  rfl

theorem conforms_inhibit (h : Heap) (id : Nat) : h.Conforms (.inhibit id) := by
  simp only [Conforms, Call.run]
  by_cases hlt : h.inhibitors + 1 < Word.limit
  · cases ho : h.object? id with
    | none =>
      rw [Action.run_bind_of_error (run_inhibit_of_none ho hlt)]
      exact .inhibitedInVain ho hlt
    | some o =>
      rw [Action.run_bind_of_ok (run_inhibit ho hlt)]
      exact .inhibited ho hlt
  · rw [Action.run_bind_of_error (run_inhibit_full hlt id)]
    exact .refused hlt

theorem conforms_allow (h : Heap) : h.Conforms .allow := by
  simp only [Conforms, Call.run, Heap.allow, Action.run_bind, Action.run_read,
    Action.run_require]
  by_cases hpos : 0 < h.inhibitors
  · simp only [if_pos hpos]
    exact .allowed hpos
  · simp only [if_neg hpos]
    exact .refused (Nat.eq_zero_of_not_pos hpos)

/-- What comes of a collection, whoever asked for it. -/
theorem responds_collect {c : Call} (hh : h.Settled) (hsup : h.Supplied) (hc : h.Collects c)
    (hafter : (collect.run h).state.Supplied) :
    Responds h c ((collect.run h).answer.map .report) (collect.run h).state := by
  by_cases hin : 0 < h.inhibitors
  · obtain ⟨ns, hrun⟩ := run_collect_of_inhibited hin
    simp only [hrun]
    exact .deferred hc hin
  · rw [run_collect hin] at hafter ⊢
    have hzero : h.inhibitors = 0 := Nat.eq_zero_of_not_pos hin
    obtain ⟨k, hk, -, ⟨hcan, r, ns, hrun⟩ | ⟨hcan, ns, hrun⟩⟩ :=
      collectNow_cases hh hsup hafter
    · simp only [hrun]
      exact .collected hc hzero hk hcan
    · simp only [hrun]
      exact .collectedInVain hc hzero hk hcan

/-- A call is answered with what its action answers. -/
theorem run_return {α : Type} (f : α → Answer) (x : HeapAction α) (h : Heap) :
    (do return f (← x) : HeapAction Answer).run h =
      ⟨(x.run h).answer.map f, (x.run h).state, (x.run h).notices⟩ := by
  rw [Action.run_bind]
  rcases x.run h with ⟨r, k, ns⟩
  cases r with
  | error e => rfl
  | ok a => simp [Except.map]

/-- Whoever collects, asks for a collection. -/
theorem run_of_collects {c : Call} (hc : h.Collects c) :
    c.run.run h =
      ⟨(collect.run h).answer.map .report, (collect.run h).state, (collect.run h).notices⟩ := by
  cases c with
  | collect => rw [Call.run, run_return]
  | collectIfWanted => rw [Call.run, run_return, run_collectIfWanted hc]
  | _ => cases hc

theorem conforms_collects (hh : h.Settled) (hsup : h.Supplied) (hc : h.Collects c)
    (hafter : (c.run.run h).state.Supplied) : h.Conforms c := by
  rw [run_of_collects hc] at hafter
  rw [Conforms, run_of_collects hc]
  exact responds_collect hh hsup hc hafter

theorem run_unwanted (hw : h.wantsCollection = false) :
    Call.collectIfWanted.run.run h = ⟨.ok (.report none), h, []⟩ := by
  rw [Call.run, run_return, run_collectIfWanted_of_not hw]
  rfl

theorem conforms_collectIfWanted (hh : h.Settled) (hsup : h.Supplied)
    (hafter : (Call.collectIfWanted.run.run h).state.Supplied) : h.Conforms .collectIfWanted := by
  cases hw : h.wantsCollection with
  | true => exact conforms_collects hh hsup hw hafter
  | false =>
    rw [Conforms, run_unwanted hw]
    exact .unwanted hw

/-! ## Every call -/

theorem conforms (hh : h.Settled) (hsup : h.Supplied) (c : Call)
    (hafter : (c.run.run h).state.Supplied) : h.Conforms c := by
  cases c with
  | allocate len => exact conforms_allocate h len
  | addressOf id => exact conforms_addressOf h id
  | write id offset bytes => exact conforms_write hh hsup id offset bytes
  | read id => exact conforms_read h id
  | unroot id => exact conforms_unroot h id
  | retain a => exact conforms_retain hh hsup a
  | unretain a => exact conforms_unretain hh hsup a
  | isRetained a => exact conforms_isRetained hh hsup a
  | inhibit id => exact conforms_inhibit h id
  | allow => exact conforms_allow h
  | collect => exact conforms_collects hh hsup trivial hafter
  | collectIfWanted => exact conforms_collectIfWanted hh hsup hafter
  | poke a bytes => exact .poked

end Heap

end PinnedHeap
