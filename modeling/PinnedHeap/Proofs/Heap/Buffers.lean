import PinnedHeap.Proofs.Heap.Exchange

/-!
# Buffers as byte strings

To whoever has buffers, a heap is a `Store`: so many byte strings, each under
the id of its buffer. A store knows nothing of addresses and collections.
`Store.after` says what an exchange makes of it, and `Store.Honours` what has
to be answered. A heap does what its store says.
-/

namespace PinnedHeap

open Heap (Call Answer)

/-- The contents of buffers, by their ids. -/
abbrev Store : Type := Nat → Option (List UInt8)

namespace Store

/-- There are no buffers. -/
def empty : Store := fun _ => none

/-- The store after an exchange. -/
def after (m : Store) (e : Exchange) : Store := fun id =>
  match e.answer with
  | .ok (.buffer b) => if b.id = id then some (List.replicate b.len 0) else m id
  | _ => if e.call.unroots id then none else (m id).map (e.edit id)

/-- The answer is what the store lets one expect. Of an allocation it is only expected
that a buffer is a new one. -/
def Honours (m : Store) (e : Exchange) : Prop :=
  match e.call with
  | .allocate len => ∀ x, e.answer = .ok x → ∃ id, x = .buffer ⟨id, len⟩ ∧ m id = none
  | .write id offset bytes => ∀ content ∈ m id, e.answer =
      if offset + bytes.length ≤ content.length then .ok .done
      else .error (.outOfBounds offset bytes.length content.length)
  | .read id => ∀ content ∈ m id, e.answer = .ok (.content content)
  | .unroot id => ∀ content ∈ m id, e.answer = .ok .done
  | _ => True

/-- All answers are what the store lets one expect. -/
def Explains (m : Store) : List Exchange → Prop
  | [] => True
  | e :: es => m.Honours e ∧ (m.after e).Explains es

theorem explains_append {m : Store} {es : List Exchange} {e : Exchange} (hes : m.Explains es)
    (he : (es.foldl after m).Honours e) : m.Explains (es ++ [e]) := by
  induction es generalizing m with
  | nil => exact ⟨he, trivial⟩
  | cons d es ih => exact ⟨hes.1, ih hes.2 he⟩

theorem after_of_buffer {m : Store} {e : Exchange} {b : Buffer} (h : e.answer = .ok (.buffer b))
    (id : Nat) : m.after e id = if b.id = id then some (List.replicate b.len 0) else m id := by
  simp only [after, h]

theorem after_of_not_buffer {m : Store} {e : Exchange} (h : ∀ b, e.answer ≠ .ok (.buffer b))
    (id : Nat) : m.after e id = if e.call.unroots id then none else (m id).map (e.edit id) := by
  unfold after
  split
  · next b hb => exact absurd hb (h b)
  · rfl

end Store

namespace Heap

variable {h k : Heap} {c : Call} {r : Except Fault Answer} {id : Nat} {o : Object}

/-- The contents of the buffers of a heap. -/
def buffers (h : Heap) : Store := fun id =>
  (h.object? id).bind fun o => if o.rooted then some (h.memory.read o.address o.len) else none

theorem buffers_eq (ho : h.object? id = some o) :
    h.buffers id = if o.rooted then some (h.memory.read o.address o.len) else none := by
  rw [buffers, ho, Option.bind_some]

theorem buffers_eq_none (ho : h.object? id = none) : h.buffers id = none := by
  rw [buffers, ho, Option.bind_none]

/-- A live buffer is the content of an object. -/
theorem object_of_buffers {content : List UInt8} (hc : content ∈ h.buffers id) :
    ∃ o, h.object? id = some o ∧ content = h.memory.read o.address o.len := by
  obtain ⟨o, ho, hroot⟩ := Option.bind_eq_some_iff.1 hc
  refine ⟨o, ho, ?_⟩
  split at hroot
  · exact (Option.some.inj hroot).symm
  · cases hroot

/-- Buffers come from allocations. -/
theorem Responds.of_buffer {b : Buffer} (hr : Responds h c (.ok (.buffer b)) k) :
    c = .allocate b.len := by
  cases hr
  rfl

/-! ## What calls do to the buffers -/

theorem Responds.buffers_allocated {b : Buffer} (hr : Responds h c (.ok (.buffer b)) k)
    (hh : h.Settled) (hsup : k.Supplied) (id : Nat) :
    k.buffers id = if b.id = id then some (List.replicate b.len 0) else h.buffers id := by
  obtain rfl := hr.of_buffer
  cases ho : h.object? id with
  | none =>
    cases hr.appears hh hsup ho with
    | absent answer after =>
      rw [if_neg (fun heq => answer b.len (by rw [← heq])), buffers_eq_none ho,
        buffers_eq_none after]
    | made call answer after content =>
      cases answer
      rw [if_pos rfl, buffers_eq after]
      exact congrArg some content
  | some o =>
    have hne : b.id ≠ id := by
      rintro rfl
      have hnone : h.object? b.id = none := hr.object?_eq_none hh rfl
      rw [ho] at hnone
      cases hnone
    rw [if_neg hne]
    cases hr.passes hh hsup trivial ho with
    | gone collects dead after => cases collects
    | stays after len rooted retains place content =>
      rw [buffers_eq after, buffers_eq ho, rooted, content]
      simp [Call.unroots, Call.edit]

theorem Responds.buffers_edited (hr : Responds h c r k) (hh : h.Settled) (hsup : h.Supplied)
    (hsup' : k.Supplied) (hc : c.Admissible h) (hans : ∀ b, r ≠ .ok (.buffer b)) (id : Nat) :
    k.buffers id =
      if c.unroots id then none else (h.buffers id).map ((h.exchange c).edit id) := by
  cases ho : h.object? id with
  | none =>
    rw [buffers_eq_none ho, Option.map_none, ite_self]
    cases hr.appears hh hsup' ho with
    | absent answer after => exact buffers_eq_none after
    | made call answer after content => exact absurd answer (hans _)
  | some o =>
    cases hr.passes hh hsup' hc ho with
    | gone collects dead after =>
      have hroot : o.rooted = false := (Bool.or_eq_false_iff.1 dead).1
      rw [buffers_eq_none after, buffers_eq ho, hroot]
      simp
    | stays after len rooted retains place content =>
      rw [buffers_eq after, buffers_eq ho, rooted, content]
      cases o.rooted <;> cases c.unroots id <;>
        simp [edit_exchange hh hsup hc ho (Memory.length_read _ _ _)]

/-- A call does to the buffers of a heap what the exchange does to a store. -/
theorem Responds.buffers (hr : Responds h c (h.exchange c).answer k) (hh : h.Settled)
    (hsup : h.Supplied) (hsup' : k.Supplied) (hc : c.Admissible h) :
    k.buffers = h.buffers.after (h.exchange c) := by
  funext id
  by_cases hb : ∃ b, (h.exchange c).answer = .ok (.buffer b)
  · obtain ⟨b, hb⟩ := hb
    rw [Store.after_of_buffer hb]
    rw [hb] at hr
    exact hr.buffers_allocated hh hsup' id
  · have hans : ∀ b, (h.exchange c).answer ≠ .ok (.buffer b) := fun b heq => hb ⟨b, heq⟩
    rw [Store.after_of_not_buffer hans]
    exact hr.buffers_edited hh hsup hsup' hc hans id

/-! ## What is answered -/

theorem Responds.honours (hr : Responds h c (h.exchange c).answer k) (hh : h.Settled)
    (hsup : h.Supplied) : h.buffers.Honours (h.exchange c) := by
  cases c with
  | allocate len =>
    intro x hx
    rw [hx] at hr
    cases hr with
    | allocated hpos hres => exact ⟨_, rfl, buffers_eq_none hh.sound.object?_freshId⟩
    | deferred hcol hin => cases hcol
    | collected hcol hin hk hcan => cases hcol
  | write id offset bytes =>
    intro content hcontent
    obtain ⟨o, ho, rfl⟩ := object_of_buffers hcontent
    rw [Memory.length_read]
    by_cases hin : offset + bytes.length ≤ o.len
    · simp only [exchange, run_write hh hsup ho hin, if_pos hin]
    · simp only [exchange, run_write_out ho hin, if_neg hin]
  | read id =>
    intro content hcontent
    obtain ⟨o, ho, rfl⟩ := object_of_buffers hcontent
    simp only [exchange, Call.run, contentOf, Action.run_bind, run_get ho]
    rfl
  | unroot id =>
    intro content hcontent
    obtain ⟨o, ho, rfl⟩ := object_of_buffers hcontent
    simp only [exchange, Call.run, Heap.unroot, Action.run_bind, run_get ho]
    rfl
  | _ => trivial

/-- Whatever write does not fit into an object breaks off and leaves the heap as it is. -/
theorem run_write_of_not_fits {offset : Nat} {bytes : List UInt8}
    (hout : ∀ o, h.object? id = some o → ¬ offset + bytes.length ≤ o.len) :
    (∃ e, ((Call.write id offset bytes).run.run h).answer = .error e) ∧
      ((Call.write id offset bytes).run.run h).state = h := by
  cases ho : h.object? id with
  | none =>
    simp only [Call.run, writeAt, Action.run_bind, run_get_of_none ho]
    exact ⟨⟨_, rfl⟩, trivial⟩
  | some o =>
    simp only [run_write_out ho (hout o ho)]
    exact ⟨⟨_, rfl⟩, trivial⟩

end Heap

end PinnedHeap
