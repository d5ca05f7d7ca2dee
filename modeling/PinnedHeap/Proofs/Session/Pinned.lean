import PinnedHeap.Proofs.Guard.Publication
import PinnedHeap.Proofs.Session.Runs

/-!
# Pinned objects

What a pin is for: from the moment at which a task confirms it until the
release of the guard begins, the object stays where it is, under its id, and
its bytes change only by writes to it. Collections do not matter, nor does it
matter whether the buffer has been given up.

The accounts of retains are carried along a run. As the address is held all the
while, the object is retained all the while, and no call moves an object that
is retained.
-/

namespace PinnedHeap

open Heap (Call Answer)
open Exchange (outstanding Matched)

theorem Serves.accounts {h k : Heap} {raw : Nat → Nat} {held held' : List Nat} {c : Call}
    {r : Except Fault Answer} (hc : Serves held held' c r) (ha : Heap.Accounts h raw held)
    (hr : Heap.Responds h c r k) (hh : h.Settled) (hsup : k.Supplied) :
    Heap.Accounts k raw held' := by
  cases hc with
  | inhibit hp => exact (ha.neutral hr hh hsup trivial fun _ => rfl).perm hp.symm
  | allow hp => exact (ha.neutral hr hh hsup trivial fun _ => rfl).perm hp.symm
  | retain hp => exact (ha.retain hr hh hsup).perm hp.symm
  | retainFails hp => exact (ha.neutral hr hh hsup trivial fun _ => rfl).perm hp.symm
  | unretain hp => exact ((ha.perm hp).unretain hr hh hsup).2

namespace Session

variable {s₀ s t u : Session} {m : Move} {es fs : List Exchange}

/-! ## Accounts -/

/-- The accounts of retains are right, after the exchanges `es`. -/
def Accounted (s : Session) (es : List Exchange) : Prop :=
  s.heap.Accounts (outstanding es) s.shared.held

theorem Accounted.move? (ha : s.Accounted es) (hs : s.Sound) (h : s.move? m = some t)
    (hc : m.Admissible s.heap) (hsup : t.heap.Supplied)
    (hm : Matched (es ++ m.exchanges s.heap)) : t.Accounted (es ++ m.exchanges s.heap) := by
  unfold Accounted at *
  cases touches_of_move? h hs.wired hs.resting with
  | nothing hnone hh hp =>
    rw [exchanges_of_call?_none _ hnone, List.append_nil, hh]
    exact ha.perm hp.symm
  | asked hcall hh hp =>
    rw [exchanges_of_call? _ hcall] at hm ⊢
    have hr := hs.responds hh hsup
    exact (ha.exchange hr hs.settled hs.supplied hsup (hc _ hcall) hm).perm hp.symm
  | served hnone hh hserves =>
    rw [exchanges_of_call?_none _ hnone, List.append_nil]
    exact hserves.accounts ha (hs.responds hh hsup) hs.settled hsup

theorem Runs.accounted (h : Runs s fs t) (hs : s.Sound) (ha : s.Accounted es)
    (hm : Matched (es ++ fs)) : t.Accounted (es ++ fs) := by
  induction h with
  | refl =>
    rw [List.append_nil]
    exact ha
  | move m h hmove hc hsup ih =>
    rw [← List.append_assoc] at hm ⊢
    exact (ih hm.of_append).move? (h.sound hs) hmove hc hsup hm

theorem accounted_start (placement : Nat → Nat) (config : Heap.Config)
    (refusal : TaskSettings → Option String) (threads : List String) :
    (start (.create placement config) refusal threads).Accounted [] :=
  .create placement config

/-! ## Objects with an address that is held -/

/-- The object `id` is where it was, and its bytes have changed only by what was written
in the exchanges `fs`. -/
def Keeps (s : Session) (fs : List Exchange) (t : Session) (id : Nat) (o : Object) : Prop :=
  ∃ p, t.heap.object? id = some p ∧ p.address = o.address ∧ p.len = o.len ∧
    t.heap.memory.read p.address p.len =
      fs.foldl (Exchange.edit id) (s.heap.memory.read o.address o.len)

theorem Keeps.move? {id a : Nat} {o : Object} (hk : Keeps s fs t id o) (ht : t.Sound)
    (ha : t.Accounted es) (hmem : a ∈ t.shared.held) (hcov : o.Covers a)
    (h : t.move? m = some u) (hc : m.Admissible t.heap) (hsup : u.heap.Supplied) :
    Keeps s (fs ++ m.exchanges t.heap) u id o := by
  obtain ⟨p, hp, haddress, hlen, hread⟩ := hk
  have hpcov : p.Covers a := by
    rw [Object.Covers, haddress, hlen]
    exact hcov
  have hpos := Heap.Accounts.retains_pos ha hp hmem hpcov
  -- the object is retained, so no call moves it
  have hstays : ∀ {c : Call}, u.heap = (c.run.run t.heap).state → c.Admissible t.heap →
      (fs ++ m.exchanges t.heap).foldl (Exchange.edit id) (s.heap.memory.read o.address o.len) =
        c.edit id p (t.heap.memory.read p.address p.len) →
      Keeps s (fs ++ m.exchanges t.heap) u id o := by
    intro c hh hadm hedit
    obtain ⟨q, hq, hqa, hql, hqread⟩ :=
      (ht.responds hh hsup).stays ht.settled hsup hadm hp (.inl hpos)
    refine ⟨q, hq, hqa.trans haddress, hql.trans hlen, ?_⟩
    rw [hqread, hedit]
  cases touches_of_move? h ht.wired ht.resting with
  | nothing hnone hh hperm =>
    rw [exchanges_of_call?_none _ hnone, List.append_nil]
    refine ⟨p, ?_, haddress, hlen, ?_⟩
    · rw [hh]
      exact hp
    · rw [hh]
      exact hread
  | asked hcall hh hperm =>
    have hadm := hc _ hcall
    apply hstays hh hadm
    rw [exchanges_of_call? _ hcall, List.foldl_append, ← hread, List.foldl_cons, List.foldl_nil]
    exact Heap.edit_exchange ht.settled ht.supplied hadm hp (Memory.length_read _ _ _)
  | served hnone hh hserves =>
    apply hstays hh (hserves.admissible _)
    rw [exchanges_of_call?_none _ hnone, List.append_nil, hserves.edit, hread]

/-- An address that is held at one time and later on has been held all the while. -/
theorem holds_between {j a : Nat} (hs : s.Holds j a) (ht : t.Holds j a)
    (hsu : Shared.Grows s.shared u.shared) (hut : Shared.Grows u.shared t.shared) :
    u.Holds j a := by
  obtain ⟨x, hx, hxa, hxholds⟩ := hs
  obtain ⟨y, hy, hxy⟩ := hsu j x hx
  obtain ⟨z, hz, hyz⟩ := hut j y hy
  obtain ⟨z', hz', -, hzholds⟩ := ht
  rw [hz] at hz'
  cases hz'
  exact ⟨y, hy, hxy.address.trans hxa, hxholds.between hzholds hxy hyz⟩

/-- As long as an address is held, its object stays where it is. -/
theorem Runs.keeps {j a id : Nat} {o : Object} (h : Runs s fs t) (hs : s.Sound)
    (ha : s.Accounted es) (hm : Matched (es ++ fs)) (hholds : s.Holds j a) (ht : t.Holds j a)
    (ho : s.heap.object? id = some o) (hcov : o.Covers a) : Keeps s fs t id o := by
  induction h with
  | refl => exact ⟨o, ho, rfl, rfl, rfl⟩
  | @move fs u t m h hmove hc hsup ih =>
    rw [← List.append_assoc] at hm
    have hu := holds_between hholds ht h.grows (grows_of_move? hmove)
    have haccounted := h.accounted hs ha hm.of_append
    exact (ih hm.of_append hu).move? (h.sound hs) haccounted hu.mem_held hcov hmove hc hsup

/-! ## The moment of the pin -/

theorem confirmed_of_move? {j : Nat} (h : s.move? m = some t) (hc : t.Confirmed j) :
    s.Confirmed j ∨ (m = .go (.task j) ∧ s.Confirming j) := by
  rcases move?_cases h with ⟨i, r, w, rfl, hw, -, hmove⟩ | ⟨a, rfl, hmove⟩
  · rcases hmove.confirmed hc with hc | ⟨ha, -⟩
    · exact .inl hc
    · cases ha
  · rcases hmove.confirmed hc with hc | ⟨rfl, hc⟩
    · exact .inl hc
    · exact .inr ⟨rfl, hc⟩

/-- Task `j` confirms its pin, and so `r` becomes `s`. -/
structure Confirms (r : Session) (j : Nat) (s : Session) : Prop where
  move : r.move? (.go (.task j)) = some s
  due : r.Confirming j

theorem Confirms.holds {r : Session} {j : Nat} (h : Confirms r j s) : ∃ a, s.Holds j a :=
  Threads.Moves.confirming (Threads.moves_of_step? (a := .task j) h.move) h.due

/-- A run in which a pin was confirmed goes through the moment at which it was. -/
theorem Runs.confirmed {j : Nat} (h : Runs s₀ es t) (hnone : ¬ s₀.Confirmed j)
    (hc : t.Confirmed j) :
    ∃ past since r s, es = past ++ since ∧ Runs s₀ past r ∧ Confirms r j s ∧
      Runs s₀ past s ∧ Runs s since t := by
  induction h with
  | refl => exact absurd hc hnone
  | @move es t u m h hmove hadm hsup ih =>
    rcases confirmed_of_move? hmove hc with hc | ⟨rfl, hdue⟩
    · obtain ⟨past, since, r, s, rfl, hr, hconfirms, hs, hst⟩ := ih hc
      refine ⟨past, since ++ m.exchanges t.heap, r, s, List.append_assoc _ _ _, hr, hconfirms, hs, ?_⟩
      exact hst.move m hmove hadm hsup
    · have hu := h.move _ hmove hadm hsup
      have hnil : Move.exchanges t.heap (.go (.task j)) = [] := rfl
      rw [hnil, List.append_nil] at hu ⊢
      exact ⟨es, [], t, u, (List.append_nil es).symm, h, ⟨hmove, hdue⟩, hu, .refl⟩

/-- Whatever owners, tasks and collections do, and in whatever order: as long as the
release of a guard has not begun, the object that its address lies in exists under the id
and at the address that it had when the guard's task confirmed the pin, and its bytes are
those of that moment but for what was written into it since. -/
theorem Runs.pinned_object_stays {placement : Nat → Nat} {config : Heap.Config}
    {refusal : TaskSettings → Option String} {threads : List String}
    (h : Runs (start (.create placement config) refusal threads) es t) (hm : Matched es)
    {i k : Nat} {g : Guard} (hg : t.guard? i k = some g) (ha : g.address ≠ 0) :
    ∃ (j id : Nat) (past since : List Exchange) (r s : Session) (o p : Object),
      g.task = some j ∧ es = past ++ since ∧
      Runs (start (.create placement config) refusal threads) past r ∧ Confirms r j s ∧
      Runs s since t ∧
      s.heap.object? id = some o ∧ t.heap.object? id = some p ∧
      p.address = o.address ∧ p.len = o.len ∧ p.Covers g.address ∧
      t.heap.memory.read p.address p.len =
        since.foldl (Exchange.edit id) (s.heap.memory.read o.address o.len) := by
  have hs₀ := sound_start placement config refusal threads
  have ht := h.sound hs₀
  obtain ⟨w, hw, hwg⟩ := Threads.guard?_eq_some.1 hg
  have hback := (ht.orderly.owner i w hw).guard k g hwg ha
  obtain ⟨j, hj, hholds⟩ := ht.orderly.holds hw hwg hback
  obtain ⟨j', v, hj', hv, hva, hf⟩ := hback
  obtain rfl : j' = j := Option.some.inj (hj'.symm.trans hj)
  have hnone : ¬ (start (.create placement config) refusal threads).Confirmed j' := by
    rintro ⟨x, hx, -⟩
    cases hx
  obtain ⟨past, since, r, s, rfl, hr, hconfirms, hs, hst⟩ := h.confirmed hnone ⟨v, hv, hf⟩
  -- the task holds at that moment what it holds in the end
  have hheld : s.Holds j' g.address := by
    obtain ⟨a, x, hx, rfl, hxholds⟩ := hconfirms.holds
    obtain ⟨y, hy, hcont⟩ := hst.grows j' x hx
    rw [hv] at hy
    cases hy
    exact ⟨x, hx, hcont.address.symm.trans hva, hxholds⟩
  have haccounted := hs.accounted hs₀ (accounted_start placement config refusal threads)
    hm.of_append
  rw [List.nil_append] at haccounted
  obtain ⟨id, o, ho, hcov⟩ := Heap.Accounts.covered haccounted _ hheld.mem_held
  obtain ⟨p, hp, haddress, hlen, hread⟩ :=
    hst.keeps (hs.sound hs₀) haccounted hm hheld hholds ho hcov
  refine ⟨j', id, past, since, r, s, o, p, hj, rfl, hr, hconfirms, hst, ho, hp, haddress, hlen,
    ?_, hread⟩
  rw [Object.Covers, haddress, hlen]
  exact hcov

/-- A buffer is pinned, written and given up; then there is a collection. -/
def pinAndDrop : List Move :=
  [.ask 0 (.call (.allocate 24)), .ask 0 (.pin 0 {}), .go (.owner 0), .go (.task 0),
    .go (.task 0), .go (.task 0), .go (.task 0), .go (.owner 0), .go (.owner 0),
    .ask 0 (.call (.write 0 3 [7])), .ask 0 (.call (.unroot 0)), .ask 0 (.call .collect)]

theorem dropped_buffer_stays_pinned :
    ∃ es t, Runs single es t ∧ t.heap.collections = 1 ∧
      ∃ id p, t.heap.object? id = some p ∧ p.Covers 0x100000 := by
  have hrun : ((single.moves? pinAndDrop).map fun run =>
      (run.1.map Exchange.call, run.2.guard? 0 0, run.2.heap.collections)) =
        some ([.allocate 24, .write 0 3 [7], .unroot 0, .collect],
          some ⟨0x100000, none, false, some 0⟩, 1) := by decide +kernel
  obtain ⟨⟨es, t⟩, hmoves, heq⟩ := Option.map_eq_some_iff.1 hrun
  obtain ⟨hcalls, hg, hcollections⟩ : es.map Exchange.call = _ ∧ t.guard? 0 0 = _ ∧ _ := by
    simpa only [Prod.mk.injEq] using heq
  have h := Runs.of_moves? hmoves
  have hm : Matched es := Exchange.matched_of_calls (by simp [hcalls])
  obtain ⟨-, id, -, -, -, -, -, p, -, -, -, -, -, -, hp, -, -, hcov, -⟩ :=
    Runs.pinned_object_stays h hm hg (by decide)
  exact ⟨es, t, h, hcollections, id, p, hp, hcov⟩

end Session

end PinnedHeap
