import PinnedHeap.Proofs.Heap.Buffers

/-!
# Handles and objects

A buffer names its object by an id, and ids are given to other objects later.
`Fits` says that this does no harm: of the buffers that have not been given up,
each names an object that is rooted and as long as the buffer says, no two name
the same, and no other object is rooted. Calls keep that, as long as the
buffers are kept count of: an allocation adds one, giving one up removes it.

From it follows what a holder of a buffer relies on, `Usable`.
-/

namespace PinnedHeap

open Heap (Call Answer)

namespace Heap

variable {h k : Heap} {c : Call} {r : Except Fault Answer} {id : Nat} {o p : Object}
  {bs : List Buffer} {b : Buffer}

/-- These buffers and the rooted objects of the heap belong together, one to one. -/
structure Fits (h : Heap) (bs : List Buffer) : Prop where
  nodup : (bs.map Buffer.id).Nodup
  named : ∀ b ∈ bs, ∃ o, h.object? b.id = some o ∧ o.rooted = true ∧ o.len = b.len
  owned : ∀ id o, h.object? id = some o → o.rooted = true → ∃ b ∈ bs, b.id = id

/-- No other buffer names the object. -/
theorem Fits.eq_of_id (hf : h.Fits bs) {b d : Buffer} (hb : b ∈ bs) (hd : d ∈ bs)
    (hid : b.id = d.id) : b = d := List.inj_on_of_nodup_map hf.nodup hb hd hid

/-! ## Rooted objects -/

/-- An object stays rooted until its buffer is given up. -/
theorem Responds.rooted_after (hr : Responds h c r k) (hh : h.Settled) (hsup : k.Supplied)
    (hc : c.Admissible h) (ho : h.object? id = some o) (hroot : o.rooted = true)
    (hun : c.unroots id = false) :
    ∃ p, k.object? id = some p ∧ p.rooted = true ∧ p.len = o.len := by
  cases hr.passes hh hsup hc ho with
  | gone collects dead after =>
    rw [Object.isLive, hroot, Bool.true_or] at dead
    cases dead
  | @stays p after len rooted retains place content =>
    rw [hroot, hun] at rooted
    exact ⟨p, after, rooted, len⟩

/-- What is rooted was rooted before, or has just been allocated. -/
theorem Responds.rooted_before (hr : Responds h c r k) (hh : h.Settled) (hsup : k.Supplied)
    (hc : c.Admissible h) (hp : k.object? id = some p) (hroot : p.rooted = true) :
    (∃ o, h.object? id = some o ∧ o.rooted = true ∧ c.unroots id = false) ∨
      ∃ len, r = .ok (.buffer ⟨id, len⟩) := by
  cases ho : h.object? id with
  | none =>
    cases hr.appears hh hsup ho with
    | absent answer after =>
      rw [hp] at after
      cases after
    | made call answer after content => exact .inr ⟨_, answer⟩
  | some o =>
    cases hr.passes hh hsup hc ho with
    | gone collects dead after =>
      rw [hp] at after
      cases after
    | stays after len rooted retains place content =>
      rw [hp] at after
      cases after
      rw [hroot] at rooted
      obtain ⟨h1, h2⟩ := Bool.and_eq_true_iff.1 rooted.symm
      exact .inl ⟨o, rfl, h1, by simpa using h2⟩

/-! ## Calls -/

/-- The new heap has no buffers. -/
theorem fits_create (placement : Nat → Nat) (config : Config) :
    (create placement config).Fits [] where
  nodup := List.nodup_nil
  named b hb := absurd hb List.not_mem_nil
  owned id o ho := by cases ho

/-- A call that neither allocates nor gives a buffer up. -/
theorem Fits.keep (hf : h.Fits bs) (hr : Responds h c r k) (hh : h.Settled) (hsup : k.Supplied)
    (hc : c.Admissible h) (hun : ∀ b ∈ bs, c.unroots b.id = false)
    (hans : ∀ b, r ≠ .ok (.buffer b)) : k.Fits bs where
  nodup := hf.nodup
  named b hb := by
    obtain ⟨o, ho, hroot, hlen⟩ := hf.named b hb
    obtain ⟨p, hp, hroot', hlen'⟩ := hr.rooted_after hh hsup hc ho hroot (hun b hb)
    exact ⟨p, hp, hroot', hlen'.trans hlen⟩
  owned id p hp hroot := by
    rcases hr.rooted_before hh hsup hc hp hroot with ⟨o, ho, hroot', -⟩ | ⟨len, hr⟩
    · exact hf.owned id o ho hroot'
    · exact absurd hr (hans _)

/-- An allocation hands a buffer out that no other buffer is mistaken for. -/
theorem Fits.allocate (hf : h.Fits bs) (hr : Responds h c (.ok (.buffer b)) k) (hh : h.Settled)
    (hsup : k.Supplied) : k.Fits (b :: bs) := by
  obtain rfl := hr.of_buffer
  have hnone : h.object? b.id = none := hr.object?_eq_none hh rfl
  refine ⟨?_, ?_, ?_⟩
  · refine List.nodup_cons.2 ⟨?_, hf.nodup⟩
    intro hmem
    obtain ⟨d, hd, hid⟩ := List.mem_map.1 hmem
    obtain ⟨o, ho, -⟩ := hf.named d hd
    rw [hid, hnone] at ho
    cases ho
  · intro d hd
    rcases List.mem_cons.1 hd with rfl | hd
    · cases hr.appears hh hsup hnone with
      | absent answer after => exact absurd rfl (answer d.len)
      | made call answer after content =>
        simp only [Except.ok.injEq, Answer.buffer.injEq] at answer
        exact ⟨_, after, rfl, (congrArg Buffer.len answer).symm⟩
    · obtain ⟨o, ho, hroot, hlen⟩ := hf.named d hd
      obtain ⟨p, hp, hroot', hlen'⟩ := hr.rooted_after hh hsup trivial ho hroot rfl
      exact ⟨p, hp, hroot', hlen'.trans hlen⟩
  · intro id p hp hroot
    rcases hr.rooted_before hh hsup trivial hp hroot with ⟨o, ho, hroot', -⟩ | ⟨len, heq⟩
    · obtain ⟨d, hd, hid⟩ := hf.owned id o ho hroot'
      exact ⟨d, List.mem_cons_of_mem _ hd, hid⟩
    · cases heq
      exact ⟨_, List.mem_cons_self, rfl⟩

/-- Giving a buffer up leaves the others as they are. -/
theorem Fits.drop (hf : h.Fits bs) (hb : b ∈ bs) (hr : Responds h (.unroot b.id) r k)
    (hh : h.Settled) (hsup : k.Supplied) : k.Fits (bs.erase b) := by
  have hnodup : bs.Nodup := hf.nodup.of_map _
  have hmem : ∀ {d : Buffer}, d ∈ bs.erase b ↔ d ≠ b ∧ d ∈ bs := hnodup.mem_erase_iff
  refine ⟨hf.nodup.sublist (List.erase_sublist.map _), ?_, ?_⟩
  · intro d hd
    obtain ⟨hne, hd⟩ := hmem.1 hd
    obtain ⟨o, ho, hroot, hlen⟩ := hf.named d hd
    have hun : (Call.unroot b.id).unroots d.id = false :=
      beq_eq_false_iff_ne.2 fun hid => hne (hf.eq_of_id hb hd hid).symm
    obtain ⟨p, hp, hroot', hlen'⟩ := hr.rooted_after hh hsup trivial ho hroot hun
    exact ⟨p, hp, hroot', hlen'.trans hlen⟩
  · intro id p hp hroot
    rcases hr.rooted_before hh hsup trivial hp hroot with ⟨o, ho, hroot', hun⟩ | ⟨len, heq⟩
    · obtain ⟨d, hd, hid⟩ := hf.owned id o ho hroot'
      refine ⟨d, hmem.2 ⟨?_, hd⟩, hid⟩
      rintro rfl
      exact beq_eq_false_iff_ne.1 hun hid
    · rw [heq] at hr
      cases hr.of_buffer

/-! ## What a buffer is good for -/

/-- What the holder of a buffer can do with its object: none of it breaks off because there
is no such object, and none of it reaches another object. -/
structure Usable (h : Heap) (b : Buffer) (o : Object) : Prop where
  address : b.address.run h = ⟨.ok o.address, h, []⟩
  read : b.read.run h = ⟨.ok (h.memory.read o.address b.len), h, []⟩
  write : ∀ (offset : Nat) (bytes : List UInt8), offset + bytes.length ≤ b.len →
    ∃ k, (b.write offset bytes).run h = ⟨.ok (), k, []⟩ ∧ k.object? b.id = some o ∧
      k.memory.read o.address b.len =
        Memory.overwrite (h.memory.read o.address b.len) offset bytes ∧
      ∀ id, id ≠ b.id → Untouched h k id
  inhibit : (Heap.inhibit b.id).run h =
    if h.inhibitors + 1 < Word.limit then
      ⟨.ok o.address, { h with inhibitors := h.inhibitors + 1 }, []⟩
    else ⟨.error .sumOverflow, h, []⟩
  drop : ∃ k, b.drop.run h = ⟨.ok (), k, []⟩ ∧ k.object? b.id = some { o with rooted := false } ∧
    ∀ id, id ≠ b.id → Untouched h k id

theorem Settled.usable (hh : h.Settled) (hsup : h.Supplied) (ho : h.object? b.id = some o)
    (hlen : o.len = b.len) : h.Usable b o where
  address := by
    simp only [Buffer.address, addressOf, Action.run_bind, run_get ho]
    rfl
  read := by
    simp only [Buffer.read, contentOf, Action.run_bind, run_get ho, hlen]
    rfl
  write := by
    intro offset bytes hin
    rw [← hlen] at hin ⊢
    refine ⟨_, run_writeAt hh hsup ho hin, ho, Memory.read_write_inside hin, ?_⟩
    intro id hid
    cases hi : h.object? id with
    | none =>
      refine .of_read rfl ?_
      intro q hq
      rw [hi] at hq
      cases hq
    | some q => exact .of_write hh hi ho hid (Nat.le_add_right _ _) (by omega)
  inhibit := by
    by_cases hlt : h.inhibitors + 1 < Word.limit
    · rw [run_inhibit ho hlt, if_pos hlt]
    · rw [run_inhibit_full hlt, if_neg hlt]
  drop := by
    refine ⟨h.setObject b.id { o with rooted := false }, ?_, ?_, ?_⟩
    · simp only [Buffer.drop, Heap.unroot, Action.run_bind, run_get ho]
      rfl
    · rw [object?_setObject (object?_lt ho), if_pos rfl]
    · intro id hid
      exact .setObject ho hid _

end Heap

end PinnedHeap
