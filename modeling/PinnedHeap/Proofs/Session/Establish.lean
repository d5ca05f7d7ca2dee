import PinnedHeap.Guard.Pin
import PinnedHeap.Proofs.Guard.Exits
import PinnedHeap.Proofs.Session.Handles

/-!
# Pins are made whole or not at all

An attempt to pin an address of the heap either makes a guard, and then the one
object that covers the address has one more retain and nothing else of the heap
is different, or it makes none, and then the heap is as it was
(`Session.Hands.pins_are_made_whole`). Pinning a buffer comes to the same, as
collections are put off only for the duration.
-/

namespace PinnedHeap

theorem Action.run_within_whole {ν σ α : Type} (x : Action ν σ α) (s : σ) :
    (Action.within .whole x).run s = x.run s := rfl

namespace Heap

variable {h : Heap} {a : Nat}

/-- Why an address cannot be retained, and the fault that says so. -/
inductive Unretainable (h : Heap) (a : Nat) : Fault → Prop where
  | uncovered (hnone : ∀ id o, h.object? id = some o → ¬ o.Covers a) :
      Unretainable h a (.nothingToRetain a)
  | overflow {id : Nat} {o : Object} (ho : h.object? id = some o) (hcov : o.Covers a)
      (hfull : Word.limit ≤ o.retains + 1) : Unretainable h a .sumOverflow

/-- The heap with one more retain of the object that covers the address. -/
inductive Retained (h : Heap) (a : Nat) : Heap → Prop where
  | intro {id : Nat} {o : Object} (ho : h.object? id = some o) (hcov : o.Covers a)
      (honly : ∀ j p, h.object? j = some p → p.Covers a → j = id)
      (hlt : o.retains + 1 < Word.limit) :
      Retained h a (h.setObject id { o with retains := o.retains + 1 })

/-- The heap with collections put off `n` times. -/
def deferring (h : Heap) (n : Nat) : Heap := { h with inhibitors := n }

theorem Retained.deferring {k : Heap} (hk : h.Retained a k) : k.deferring h.inhibitors = k := by
  cases hk
  rfl

/-- Whether an address can be retained has nothing to do with whether collections are put off. -/
theorem retain_cases (hh : h.Settled) (hsup : h.Supplied) (a n : Nat) :
    (∃ k ns, Retained h a k ∧
      (retain a).run (h.deferring n) = ⟨.ok (), k.deferring n, ns⟩) ∨
    ∃ e, Unretainable h a e ∧ (retain a).run (h.deferring n) = ⟨.error e, h.deferring n, []⟩ := by
  have hfind' : (h.deferring n).find? a = h.find? a := rfl
  simp only [retain, Action.run_bind, Action.run_read, hfind']
  rcases find_cases hh hsup a with ⟨id, o, ho, hcov, hfind⟩ | ⟨hnone, hfind⟩
  · have ho' : (h.deferring n).object? id = some o := ho
    simp only [hfind, Action.run_ofExcept_ok, Action.run_bind, run_get ho']
    by_cases hlt : o.retains + 1 < Word.limit
    · have honly : ∀ j p, h.object? j = some p → p.Covers a → j = id :=
        fun j p hp hpa => (eq_of_covers hh hp ho hpa hcov).1
      simp only [Word.add_of_lt hlt]
      exact .inl ⟨_, _, .intro ho hcov honly hlt, rfl⟩
    · simp only [Word.add_eq_error.2 ⟨hlt, rfl⟩]
      exact .inr ⟨_, .overflow ho hcov (Nat.not_lt.1 hlt), rfl⟩
  · simp only [hfind, Action.run_ofExcept_ok]
    exact .inr ⟨_, .uncovered hnone, rfl⟩

end Heap

/-- Why no guard is made of an address, and what is answered instead. -/
inductive Unpinnable (p : Shared Heap) (settings : TaskSettings) (a : Nat) :
    Except Fault (Except Refusal Guard) → Prop where
  /-- A thread cannot have such a name. -/
  | misnamed (hn : '\x00' ∈ settings.name.toList) :
      Unpinnable p settings a (.error (.nullInName settings.name))
  /-- The operating system refuses the thread. -/
  | refused {reason : String} (hn : '\x00' ∉ settings.name.toList)
      (hr : p.refusal settings = some reason) :
      Unpinnable p settings a (.ok (.error ⟨a, reason⟩))
  /-- The heap does not hold the address. -/
  | unretainable {e : Fault} (hn : '\x00' ∉ settings.name.toList)
      (hr : p.refusal settings = none) (he : p.managed.Unretainable a e) :
      Unpinnable p settings a (.error e)

/-- What an attempt to pin an address leaves behind. -/
inductive AllOrNothing (p : Shared Heap) (settings : TaskSettings) (a : Nat) :
    Outcome Entry (Shared Heap) (Except Refusal Guard) → Prop where
  /-- No guard is made, and nothing is changed. -/
  | nothing {r : Except Fault (Except Refusal Guard)} {q : Shared Heap} {ns : List Entry}
      (answer : Unpinnable p settings a r) (managed : q.managed = p.managed)
      (cells : q.cells = p.cells) (holding : q.holding = p.holding) :
      AllOrNothing p settings a ⟨r, q, ns⟩
  /-- A guard is made of the address, and the object that covers it is retained. -/
  | all {q : Shared Heap} {ns : List Entry} (named : '\x00' ∉ settings.name.toList)
      (granted : p.refusal settings = none) (managed : p.managed.Retained a q.managed)
      (cells : q.cells = p.cells) (holding : q.holding = p.holding + 1) :
      AllOrNothing p settings a ⟨.ok (.ok (.of a p.tasks.length)), q, ns⟩

/-- The threads' state with collections put off `n` times. -/
def Shared.deferring (p : Shared Heap) (n : Nat) : Shared Heap :=
  { p with managed := p.managed.deferring n }

namespace Guard

variable {p : Shared Heap}

/-- It makes no difference to the making of a guard whether collections are put off. -/
theorem allOrNothing_establish (hh : p.managed.Settled) (hsup : p.managed.Supplied)
    (owner : String) (settings : TaskSettings) (a n : Nat) :
    ∃ r q ns, (establish owner settings (.heap .whole) a).run (p.deferring n) = ⟨r, q, ns⟩ ∧
      q.managed.inhibitors = n ∧
      ∀ ms, AllOrNothing p settings a ⟨r, q.deferring p.managed.inhibitors, ms⟩ := by
  have hexit := establishes owner settings (.heap .whole) a (p.deferring n)
  generalize hrun : (establish owner settings (.heap .whole) a).run (p.deferring n) = o at hexit
  refine ⟨o.answer, o.state, o.notices, rfl, ?_⟩
  cases hexit with
  | misnamed hn => exact ⟨rfl, fun ms => .nothing (.misnamed hn) rfl rfl rfl⟩
  | closeFails hn hr hc => cases hc
  | refused hn hr hc =>
    cases hc
    exact ⟨rfl, fun ms => .nothing (.refused hn hr) rfl rfl rfl⟩
  | retainFails hn hr hm =>
    rcases Heap.retain_cases hh hsup a n with ⟨k, ns, -, hk⟩ | ⟨e, he, hk⟩
    · cases hk.symm.trans hm
    · cases hk.symm.trans hm
      exact ⟨rfl, fun ms => .nothing (.unretainable hn hr he) rfl rfl rfl⟩
  | made hn hr hm =>
    rcases Heap.retain_cases hh hsup a n with ⟨k, ns, hkept, hk⟩ | ⟨e, -, hk⟩
    · cases hk.symm.trans hm
      refine ⟨rfl, fun ms => .all hn hr ?_ rfl rfl⟩
      show p.managed.Retained a (k.deferring p.managed.inhibitors)
      rw [hkept.deferring]
      exact hkept
    · cases hk.symm.trans hm

end Guard

/-- Pinning a buffer is pinning the address of its object, unless too many are at it. -/
theorem Buffer.allOrNothing_pin {p : Shared Heap} {b : Buffer} {o : Object}
    (hh : p.managed.Settled) (hsup : p.managed.Supplied) (hb : p.managed.Usable b o)
    (hlt : p.managed.inhibitors + 1 < Word.limit) (owner : String) (settings : TaskSettings) :
    AllOrNothing p settings o.address ((b.pin owner .whole settings).run p) := by
  obtain ⟨r, q, ns, hrun, hin, hall⟩ := Guard.allOrNothing_establish hh hsup owner settings
    o.address (p.managed.inhibitors + 1)
  have hprepare : (Action.within .whole (Heap.capture b.id)).run p.managed =
      ⟨.ok o.address, p.managed.deferring (p.managed.inhibitors + 1), []⟩ := by
    rw [Action.run_within_whole, Heap.run_capture hh hsup, hb.inhibit, if_pos hlt]
    rfl
  have hclean : (Action.within .whole Heap.allow).run q.managed =
      ⟨.ok (), q.managed.deferring p.managed.inhibitors, []⟩ := by
    have hpos : 0 < q.managed.inhibitors := by omega
    have hless : q.managed.inhibitors - 1 = p.managed.inhibitors := by omega
    simp only [Action.run_within_whole, Heap.allow, Action.run_bind, Action.run_read,
      Action.run_require, hpos, if_true, Action.run_update, hless]
    rfl
  rw [Buffer.pin, Guard.run_establishBetween hprepare hrun hclean (Guard.run_handOver_ok _ _ _)]
  exact hall _

namespace Session

variable {t : Session} {bs : List Buffer}

/-- Whatever the holders of buffers have done: an attempt to make a guard of an address of the
heap makes it and retains the object there, or fails and changes nothing; and so does an attempt
to pin a buffer, which fails besides when too many buffers are being pinned. -/
theorem Hands.pins_are_made_whole {placement : Nat → Nat} {config : Heap.Config}
    {refusal : TaskSettings → Option String} {threads : List String}
    (h : Hands (start (.create placement config) refusal threads) bs t) (owner : String)
    (settings : TaskSettings) :
    (∀ a, AllOrNothing t.shared settings a
      ((Guard.establish owner settings (.heap .whole) a).run t.shared)) ∧
    ∀ b ∈ bs, ∃ o, t.heap.object? b.id = some o ∧
      (t.heap.inhibitors + 1 < Word.limit →
        AllOrNothing t.shared settings o.address ((b.pin owner .whole settings).run t.shared)) ∧
      (Word.limit ≤ t.heap.inhibitors + 1 →
        (b.pin owner .whole settings).run t.shared = ⟨.error .sumOverflow, t.shared, []⟩) := by
  have hsettled := h.sound.settled
  have hsupplied := h.sound.supplied
  refine ⟨?_, ?_⟩
  · intro a
    obtain ⟨r, q, ns, hrun, hin, hall⟩ :=
      Guard.allOrNothing_establish hsettled hsupplied owner settings a t.heap.inhibitors
    have hrun : (Guard.establish owner settings (.heap .whole) a).run t.shared = ⟨r, q, ns⟩ := hrun
    have hsame : q.deferring t.heap.inhibitors = q := by rw [← hin]; rfl
    rw [hrun, ← hsame]
    exact hall ns
  · intro b hb
    obtain ⟨o, ho, husable⟩ := h.usable hb
    refine ⟨o, ho, ?_, ?_⟩
    · intro hlt
      exact Buffer.allOrNothing_pin hsettled hsupplied husable hlt owner settings
    · intro hfull
      have hprepare : (Action.within .whole (Heap.capture b.id)).run t.heap =
          ⟨.error .sumOverflow, t.heap, []⟩ := by
        rw [Action.run_within_whole, Heap.run_capture hsettled hsupplied, husable.inhibit,
          if_neg (Nat.not_lt.2 hfull)]
      exact Guard.run_establishBetween_of_error hprepare

/-- The one buffer that there is gets pinned; the byte behind its object belongs to no object. -/
theorem buffer_is_pinned_and_what_follows_is_not :
    ∃ t, Hands single [⟨0, 24⟩] t ∧
      AllOrNothing t.shared {} 0x100000 ((Buffer.pin ⟨0, 24⟩ "main" .whole {}).run t.shared) ∧
      AllOrNothing t.shared {} 0x100018
        ((Guard.establish "main" {} (.heap .whole) 0x100018).run t.shared) := by
  have hrun : (single.hands? [] [.use 0 (.allocate 24)]).map (fun run =>
      (run.1, run.2.heap.inhibitors, (run.2.heap.object? 0).map Object.address)) =
        some ([⟨0, 24⟩], 0, some 0x100000) := by decide +kernel
  obtain ⟨⟨bs, t⟩, hdeeds, heq⟩ := Option.map_eq_some_iff.1 hrun
  obtain ⟨rfl, hinhibitors, haddress⟩ : bs = _ ∧ t.heap.inhibitors = _ ∧ _ := by
    simpa only [Prod.mk.injEq] using heq
  have h := Hands.of_hands? .empty hdeeds
  obtain ⟨hguard, hpin⟩ := Hands.pins_are_made_whole h "main" {}
  obtain ⟨o, ho, hmade, -⟩ := hpin _ List.mem_cons_self
  have ho : t.heap.object? 0 = some o := ho
  have haddress : o.address = 0x100000 := by simpa [ho] using haddress
  refine ⟨t, h, ?_, hguard 0x100018⟩
  rw [← haddress]
  exact hmade (by rw [hinhibitors]; decide)

end Session

end PinnedHeap
