import PinnedHeap.Proofs.Heap.Exchange

/-!
# Accounts of retains

Who retains an object: somebody who asked the heap for it, or a pinning task.
`Accounts` says that the number of retains of every object is the sum of the
two, and that every address that a task holds lies in an object. As long as
nobody gives back more than they took, calls keep the accounts, so an object
with a held address is retained.
-/

namespace PinnedHeap

namespace Heap

open Exchange (outstanding Matched)

variable {h k : Heap} {c : Call} {r : Except Fault Answer} {id : Nat} {o : Object}
  {raw raw' : Nat → Nat} {held held' : List Nat} {es : List Exchange}

/-- Every retain of an object counts for its id or belongs to a held address. -/
structure Accounts (h : Heap) (raw : Nat → Nat) (held : List Nat) : Prop where
  retains : ∀ {id o}, h.object? id = some o →
    o.retains = raw id + held.countP fun a => o.Covers a
  covered : ∀ a ∈ held, ∃ id o, h.object? id = some o ∧ o.Covers a
  vacant : ∀ {id}, h.object? id = none → raw id = 0

namespace Accounts

theorem perm (ha : Accounts h raw held) (hp : held.Perm held') : Accounts h raw held' where
  retains ho := by
    rw [ha.retains ho, hp.countP_eq]
  covered a hmem := ha.covered a (hp.mem_iff.2 hmem)
  vacant := ha.vacant

theorem retains_pos (ha : Accounts h raw held) (ho : h.object? id = some o) {a : Nat}
    (hmem : a ∈ held) (hcov : o.Covers a) : 0 < o.retains := by
  have hpos : 0 < held.countP fun a => o.Covers a :=
    List.countP_pos_iff.2 ⟨a, hmem, decide_eq_true hcov⟩
  rw [ha.retains ho]
  omega

theorem create (placement : Nat → Nat) (config : Config) :
    Accounts (create placement config) (outstanding []) [] where
  retains ho := by cases ho
  covered a hmem := by cases hmem
  vacant _ := rfl

end Accounts

theorem not_isLive {o : Object} (hdead : o.isLive = false) : ¬ 0 < o.retains := by
  intro hpos
  rw [Object.isLive, Bool.or_eq_false_iff] at hdead
  exact absurd (decide_eq_true hpos) (by rw [← Object.isRetained, hdead.2]; decide)

/-! ## What calls do to the accounts -/

/-- An object stays in its place if it is retained, and also if nothing is moved. -/
theorem Responds.stays (hr : Responds h c r k) (hh : h.Settled) (hsup : k.Supplied)
    (hc : c.Admissible h) (ho : h.object? id = some o)
    (hplace : 0 < o.retains ∨ ¬ h.Collects c) :
    ∃ p, k.object? id = some p ∧ p.address = o.address ∧ p.len = o.len ∧
      k.memory.read p.address p.len = c.edit id o (h.memory.read o.address o.len) := by
  cases hr.passes hh hsup hc ho with
  | gone collects dead after =>
    rcases hplace with hpos | hcol
    · exact absurd hpos (not_isLive dead)
    · exact absurd collects hcol
  | stays after len rooted retains place content =>
    exact ⟨_, after, place hplace, len, content⟩

/-- New accounts agree with the heap after a call if they charge the call to whoever
made it and if what is held stays where it is. -/
theorem Responds.accounts (hr : Responds h c r k) (hh : h.Settled) (hsup : k.Supplied)
    (hc : c.Admissible h)
    (hretains : ∀ {id o}, h.object? id = some o →
      raw' id + (held'.countP fun a => o.Covers a) = c.retainsAfter o r)
    (hcovered : ∀ a ∈ held', ∃ id o, h.object? id = some o ∧ o.Covers a ∧
      (0 < o.retains ∨ ¬ h.Collects c))
    (hvacant : ∀ {id}, h.object? id = none → raw' id = 0) : Accounts k raw' held' := by
  have hk := hr.settled hh hsup
  have hstays : ∀ a ∈ held', ∃ id o p, h.object? id = some o ∧ o.Covers a ∧
      k.object? id = some p ∧ p.Covers a := by
    intro a hmem
    obtain ⟨id, o, ho, hcov, hplace⟩ := hcovered a hmem
    obtain ⟨p, hp, haddress, hlen, -⟩ := hr.stays hh hsup hc ho hplace
    refine ⟨id, o, p, ho, hcov, hp, ?_⟩
    rw [Object.Covers, haddress, hlen]
    exact hcov
  -- an object covers a held address before the call if and only if it does so after it
  have hcovers : ∀ {id o p}, h.object? id = some o → k.object? id = some p →
      ∀ a ∈ held', o.Covers a ↔ p.Covers a := by
    intro id o p ho hp a hmem
    obtain ⟨j, q, q', hq, hcov, hq', hcov'⟩ := hstays a hmem
    constructor
    · intro hoa
      obtain ⟨rfl, rfl⟩ := eq_of_covers hh ho hq hoa hcov
      rw [hp] at hq'
      cases hq'
      exact hcov'
    · intro hpa
      obtain ⟨rfl, rfl⟩ := eq_of_covers hk hp hq' hpa hcov'
      rw [ho] at hq
      cases hq
      exact hcov
  constructor
  · intro id p hp
    cases ho : h.object? id with
    | none =>
      cases hr.appears hh hsup ho with
      | absent answer after =>
        rw [hp] at after
        cases after
      | made call answer after content =>
        have hnone : (held'.countP fun a => p.Covers a) = 0 := by
          apply List.countP_eq_zero.2
          intro a hmem hcov
          obtain ⟨j, q, q', hq, -, hq', hcov'⟩ := hstays a hmem
          obtain ⟨rfl, -⟩ := eq_of_covers hk hp hq' (of_decide_eq_true hcov) hcov'
          rw [ho] at hq
          cases hq
        rw [hnone, hvacant ho]
        rw [hp] at after
        cases after
        rfl
    | some o =>
      cases hr.passes hh hsup hc ho with
      | gone collects dead after =>
        rw [hp] at after
        cases after
      | stays after len rooted retains place content =>
        rw [hp] at after
        cases after
        rw [retains, ← hretains ho, List.countP_congr]
        intro a hmem
        simpa using hcovers ho hp a hmem
  · intro a hmem
    obtain ⟨id, -, p, -, -, hp, hcov⟩ := hstays a hmem
    exact ⟨id, p, hp, hcov⟩
  · intro id hnone
    cases ho : h.object? id with
    | none => exact hvacant ho
    | some o =>
      cases hr.passes hh hsup hc ho with
      | gone collects dead after =>
        have hspares : Spares c r id o := collects.spares
        have h1 := hretains ho
        have h2 := not_isLive dead
        rw [hspares.retains] at h1
        omega
      | stays after len rooted retains place content =>
        rw [hnone] at after
        cases after

/-- A call that retains nothing and gives nothing back. -/
theorem Accounts.neutral (ha : Accounts h raw held) (hr : Responds h c r k) (hh : h.Settled)
    (hsup : k.Supplied) (hc : c.Admissible h) (hsame : ∀ o, c.retainsAfter o r = o.retains) :
    Accounts k raw held := by
  refine hr.accounts hh hsup hc ?_ ?_ ha.vacant
  · intro id o ho
    rw [hsame, ha.retains ho]
  · intro a hmem
    obtain ⟨id, o, ho, hcov⟩ := ha.covered a hmem
    exact ⟨id, o, ho, hcov, .inl (ha.retains_pos ho hmem hcov)⟩

/-! ### Tasks -/

theorem Accounts.retain {a : Nat} {x : Answer} (ha : Accounts h raw held)
    (hr : Responds h (.retain a) (.ok x) k) (hh : h.Settled) (hsup : k.Supplied) :
    Accounts k raw (a :: held) := by
  refine hr.accounts hh hsup trivial ?_ ?_ ha.vacant
  · intro id o ho
    rw [List.countP_cons, ← Nat.add_assoc, ← ha.retains ho, Call.retainsAfter]
    by_cases hcov : o.Covers a <;> simp [hcov]
  · intro b hmem
    rcases List.mem_cons.1 hmem with rfl | hmem
    · cases hr with
      | retained ho hcov hlt => exact ⟨_, _, ho, hcov, .inr id⟩
      | deferred hcol hin => cases hcol
      | collected hcol hin hk hcan => cases hcol
    · obtain ⟨id, o, ho, hcov⟩ := ha.covered b hmem
      exact ⟨id, o, ho, hcov, .inr fun hcol => hcol⟩

/-- Whoever holds an address can give it back. -/
theorem Accounts.unretain {a : Nat} (ha : Accounts h raw (a :: held))
    (hr : Responds h (.unretain a) r k) (hh : h.Settled) (hsup : k.Supplied) :
    (∃ x, r = .ok x) ∧ Accounts k raw held := by
  obtain ⟨id, o, ho, hcov⟩ := ha.covered a List.mem_cons_self
  have hpos := ha.retains_pos ho List.mem_cons_self hcov
  obtain ⟨x, rfl⟩ : ∃ x, r = .ok x := by
    rcases hr.of_unretain hh ho hcov with ⟨-, hok, -⟩ | ⟨hzero, -, -⟩
    · exact ⟨_, hok⟩
    · omega
  refine ⟨⟨x, rfl⟩, hr.accounts hh hsup trivial ?_ ?_ ha.vacant⟩
  · intro j p hp
    have hretains := ha.retains hp
    rw [List.countP_cons] at hretains
    rw [Call.retainsAfter]
    by_cases hpa : p.Covers a
    · simp only [hpa, decide_true, if_true] at hretains ⊢
      omega
    · simp only [hpa, decide_false, Bool.false_eq_true, if_false] at hretains ⊢
      omega
  · intro b hmem
    obtain ⟨j, p, hp, hpb⟩ := ha.covered b (List.mem_cons_of_mem _ hmem)
    exact ⟨j, p, hp, hpb, .inr fun hcol => hcol⟩

/-! ### Whoever else calls -/

theorem retainsAfter_exchange (hh : h.Settled) (hsup : h.Supplied) (c : Call)
    (ho : h.object? id = some o) :
    c.retainsAfter o (h.exchange c).answer =
      o.retains + (if (h.exchange c).retains id then 1 else 0) -
        if (h.exchange c).unretains id then 1 else 0 := by
  have hany := any_spot hh hsup ho
  cases c with
  | retain a =>
    simp only [Call.retainsAfter, Exchange.retains, Exchange.unretains, exchange, Call.address?,
      Option.bind_some, hany]
    cases (Call.run (.retain a)).run h |>.answer with
    | ok x => by_cases hcov : o.Covers a <;> simp [hcov]
    | error e => rfl
  | unretain a =>
    simp only [Call.retainsAfter, Exchange.retains, Exchange.unretains, exchange, Call.address?,
      Option.bind_some, hany]
    cases (Call.run (.unretain a)).run h |>.answer with
    | ok x => by_cases hcov : o.Covers a <;> simp [hcov]
    | error e => rfl
  | _ => rfl

/-- Nothing is retained and nothing given back where there is no object. -/
theorem not_retains_exchange (hh : h.Settled) (hsup : h.Supplied) (c : Call)
    (ho : h.object? id = none) :
    (h.exchange c).retains id = false ∧ (h.exchange c).unretains id = false := by
  have hspot : ((h.exchange c).spot.any fun spot => spot.1 = id) = false := by
    cases hs : (h.exchange c).spot with
    | none => rfl
    | some spot =>
      apply decide_eq_false
      intro heq
      obtain ⟨a, -, ha⟩ := Option.bind_eq_some_iff.1 hs
      obtain ⟨o, ho', -⟩ := (spot_eq_some hh hsup).1 ha
      rw [heq, ho] at ho'
      cases ho'
  constructor
  · unfold Exchange.retains
    split
    · exact hspot
    · rfl
  · unfold Exchange.unretains
    split
    · exact hspot
    · rfl

theorem outstanding_append (es : List Exchange) (e : Exchange) (id : Nat) :
    outstanding (es ++ [e]) id =
      (es.countP (Exchange.retains id) + if e.retains id then 1 else 0) -
        (es.countP (Exchange.unretains id) + if e.unretains id then 1 else 0) := by
  simp only [outstanding, List.countP_append, List.countP_singleton]

theorem Accounts.exchange (ha : Accounts h (outstanding es) held)
    (hr : Responds h c (h.exchange c).answer k) (hh : h.Settled) (hsup : h.Supplied)
    (hsup' : k.Supplied) (hc : c.Admissible h) (hm : Matched (es ++ [h.exchange c])) :
    Accounts k (outstanding (es ++ [h.exchange c])) held := by
  refine hr.accounts hh hsup' hc ?_ ?_ ?_
  · intro id o ho
    have hbefore := hm es (List.prefix_append es _) id
    have hafter := hm _ (List.prefix_refl _) id
    rw [List.countP_append, List.countP_append, List.countP_singleton, List.countP_singleton]
      at hafter
    have hretains := ha.retains ho
    rw [outstanding] at hretains
    rw [retainsAfter_exchange hh hsup c ho, outstanding_append]
    omega
  · intro a hmem
    obtain ⟨id, o, ho, hcov⟩ := ha.covered a hmem
    exact ⟨id, o, ho, hcov, .inl (ha.retains_pos ho hmem hcov)⟩
  · intro id ho
    obtain ⟨hret, hunret⟩ := not_retains_exchange hh hsup c ho
    rw [outstanding_append, hret, hunret]
    exact ha.vacant ho

end Heap

end PinnedHeap
