import PinnedHeap.Proofs.Heap.Buffers
import PinnedHeap.Proofs.Session.Runs

/-!
# The buffers of a session

All that owners learn about their buffers in a run, they could have learnt from
a store that nobody else knows of: pins, releases and collections make no
difference to it.
-/

namespace PinnedHeap

open Heap (Call Answer)

namespace Session

variable {s t u : Session} {m : Move} {es : List Exchange}

/-- Calls in the service of guards are nothing to a store. -/
theorem buffers_of_serves {h k : Heap} {held held' : List Nat} {c : Call}
    (hc : Serves held held' c (c.run.run h).answer)
    (hr : Heap.Responds h c (c.run.run h).answer k) (hh : h.Settled) (hsup : h.Supplied)
    (hsup' : k.Supplied) : k.buffers = h.buffers := by
  funext id
  have hans : ∀ b, (c.run.run h).answer ≠ .ok (.buffer b) := by
    intro b hb
    rw [hb] at hr hc
    cases hr.of_buffer
    cases hc
  rw [hr.buffers_edited hh hsup hsup' (hc.admissible h) hans, hc.unroots, if_neg Bool.false_ne_true]
  have hedit : (h.exchange c).edit id = fun content => content := funext (hc.edit_exchange h id)
  rw [hedit]
  exact Option.map_id'

/-- A move does to the buffers what its exchanges do to a store, and answers as the store
lets one expect. -/
theorem buffers_of_move? (hs : s.Sound) (h : s.move? m = some t) (hc : m.Admissible s.heap)
    (hsup : t.heap.Supplied) :
    (∀ e ∈ m.exchanges s.heap, s.heap.buffers.Honours e) ∧
      t.heap.buffers = (m.exchanges s.heap).foldl Store.after s.heap.buffers := by
  cases touches_of_move? h hs.wired hs.resting with
  | nothing hnone hh hp =>
    rw [exchanges_of_call?_none _ hnone, hh]
    exact ⟨fun e he => absurd he List.not_mem_nil, rfl⟩
  | @asked c hcall hh hp =>
    have hr : Heap.Responds s.heap c (s.heap.exchange c).answer t.heap := hs.responds hh hsup
    rw [exchanges_of_call? _ hcall]
    refine ⟨?_, hr.buffers hs.settled hs.supplied hsup (hc c hcall)⟩
    intro e he
    rw [List.mem_singleton.1 he]
    exact hr.honours hs.settled hs.supplied
  | served hnone hh hserves =>
    rw [exchanges_of_call?_none _ hnone]
    refine ⟨fun e he => absurd he List.not_mem_nil, ?_⟩
    exact buffers_of_serves hserves (hs.responds hh hsup) hs.settled hs.supplied hsup

/-- In every run, owners are answered as if their buffers were byte strings in a store, and
that is what the buffers hold in the end. A write that does not fit into an object breaks
off and changes nothing at all. -/
theorem Runs.buffers_refine_store {placement : Nat → Nat} {config : Heap.Config}
    {refusal : TaskSettings → Option String} {threads : List String}
    (h : Runs (start (.create placement config) refusal threads) es t) :
    Store.empty.Explains es ∧ t.heap.buffers = es.foldl Store.after .empty ∧
      ∀ (id offset : Nat) (bytes : List UInt8),
        (∀ o, t.heap.object? id = some o → ¬ offset + bytes.length ≤ o.len) →
        (∃ e, ((Call.write id offset bytes).run.run t.heap).answer = .error e) ∧
          ((Call.write id offset bytes).run.run t.heap).state = t.heap := by
  have hrefines : Store.empty.Explains es ∧ t.heap.buffers = es.foldl Store.after .empty := by
    induction h with
    | refl => exact ⟨trivial, rfl⟩
    | @move es t u m h hmove hc hsup ih =>
      obtain ⟨hexplains, hbuffers⟩ := ih
      have ht := h.sound (sound_start placement config refusal threads)
      obtain ⟨hhonours, hafter⟩ := buffers_of_move? ht hmove hc hsup
      rw [hbuffers] at hhonours hafter
      rw [List.foldl_append]
      refine ⟨?_, hafter⟩
      cases hcall : m.call? with
      | none =>
        rw [exchanges_of_call?_none _ hcall, List.append_nil]
        exact hexplains
      | some c =>
        rw [exchanges_of_call? _ hcall] at hhonours ⊢
        exact Store.explains_append hexplains (hhonours _ (List.mem_singleton_self _))
  exact ⟨hrefines.1, hrefines.2, fun id offset bytes => Heap.run_write_of_not_fits⟩

/-- A buffer is written, once in vain, and moved by a collection. -/
def writeAndCollect : List Move :=
  [.ask 0 (.call (.allocate 5)), .ask 0 (.call (.write 0 2 [7, 8])),
    .ask 0 (.call (.write 0 4 [9, 9])), .ask 0 (.call .collect)]

theorem moved_buffer_keeps_content :
    ∃ es t, Runs single es t ∧ (t.heap.object? 0).map Object.address = some 0x200000 ∧
      t.heap.buffers 0 = some [0, 0, 7, 8, 0] := by
  have hrun : ((single.moves? writeAndCollect).map fun run =>
      (run.1.foldl Store.after .empty 0, (run.2.heap.object? 0).map Object.address)) =
        some (some [0, 0, 7, 8, 0], some 0x200000) := by decide +kernel
  obtain ⟨⟨es, t⟩, hmoves, heq⟩ := Option.map_eq_some_iff.1 hrun
  obtain ⟨hstore, haddress⟩ : es.foldl Store.after .empty 0 = _ ∧ _ := by
    simpa only [Prod.mk.injEq] using heq
  have h := Runs.of_moves? hmoves
  have hbuffers := (Runs.buffers_refine_store h).2.1
  exact ⟨es, t, h, haddress, by rw [hbuffers, hstore]⟩

end Session

end PinnedHeap
