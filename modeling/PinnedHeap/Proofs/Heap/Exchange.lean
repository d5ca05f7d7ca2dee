import PinnedHeap.Proofs.Heap.History

/-!
# Exchanges

A call, what was answered, and where the address lies that the call names. A
history of a heap that is seen from outside is a list of exchanges; what it
says of one object does not depend on where the object was at any time.
-/

namespace PinnedHeap

open Heap (Call Answer)

namespace Heap

/-- The object that an address lies in, and how far inside. -/
def spot (h : Heap) (a : Nat) : Option (Nat × Nat) :=
  match h.find? a with
  | .ok (some id) => (h.object? id).map fun o => (id, a - o.address)
  | _ => none

/-- The address that a call names. -/
def Call.address? : Call → Option Nat
  | retain a => some a
  | unretain a => some a
  | isRetained a => some a
  | poke a _ => some a
  | _ => none

end Heap

/-- A call and what was answered. -/
structure Exchange where
  call : Call
  answer : Except Fault Answer
  /-- Where the address lies that the call names. -/
  spot : Option (Nat × Nat)

namespace Exchange

/-- The bytes of an object after the exchange. -/
def edit (id : Nat) (content : List UInt8) (e : Exchange) : List UInt8 :=
  match e.call with
  | .write j offset bytes =>
    if j = id ∧ offset + bytes.length ≤ content.length then
      Memory.overwrite content offset bytes
    else content
  | .poke _ bytes =>
    match e.spot with
    | some (j, offset) => if j = id then Memory.overwrite content offset bytes else content
    | none => content
  | _ => content

/-- An address inside the object was retained. -/
def retains (id : Nat) (e : Exchange) : Bool :=
  match e.call, e.answer with
  | .retain _, .ok _ => e.spot.any fun spot => spot.1 = id
  | _, _ => false

/-- A retain of an address inside the object was given back. -/
def unretains (id : Nat) (e : Exchange) : Bool :=
  match e.call, e.answer with
  | .unretain _, .ok _ => e.spot.any fun spot => spot.1 = id
  | _, _ => false

/-- The retains of an object that have not been given back. -/
def outstanding (es : List Exchange) (id : Nat) : Nat :=
  es.countP (retains id) - es.countP (unretains id)

/-- At no time have more retains of an object been given back than there were. An object
is not given up before the two are equal, so the next one with its id starts anew. -/
def Matched (es : List Exchange) : Prop :=
  ∀ past, past <+: es → ∀ id, past.countP (unretains id) ≤ past.countP (retains id)

/-- Where nothing is given back, nothing is given back too often. -/
theorem matched_of_calls {es : List Exchange} (h : ∀ a, .unretain a ∉ es.map Exchange.call) :
    Matched es := by
  intro past hpast id
  have hnone : past.countP (unretains id) = 0 := by
    apply List.countP_eq_zero.2
    intro e he hunretains
    unfold unretains at hunretains
    split at hunretains
    · next a x hcall _ => exact h a (hcall ▸ List.mem_map_of_mem (hpast.subset he))
    · cases hunretains
  omega

theorem Matched.of_append {es fs : List Exchange} (h : Matched (es ++ fs)) : Matched es :=
  fun past hpast => h past (hpast.trans (List.prefix_append es fs))

end Exchange

namespace Heap

variable {h k : Heap} {c : Call} {id : Nat} {o : Object}

/-- The call as an exchange with the heap. -/
def exchange (h : Heap) (c : Call) : Exchange where
  call := c
  answer := (c.run.run h).answer
  spot := c.address?.bind h.spot

theorem spot_of_covers (hh : h.Settled) (hsup : h.Supplied) (ho : h.object? id = some o) {a : Nat}
    (hcov : o.Covers a) : h.spot a = some (id, a - o.address) := by
  simp only [spot, find?_of_covers hh hsup ho hcov, ho, Option.map_some]

theorem spot_eq_some (hh : h.Settled) (hsup : h.Supplied) {a offset : Nat} :
    h.spot a = some (id, offset) ↔
      ∃ o, h.object? id = some o ∧ o.Covers a ∧ offset = a - o.address := by
  constructor
  · intro hspot
    rcases find_cases hh hsup a with ⟨j, o, ho, hcov, hfind⟩ | ⟨hnone, hfind⟩
    · rw [spot_of_covers hh hsup ho hcov] at hspot
      cases hspot
      exact ⟨o, ho, hcov, rfl⟩
    · simp only [spot, hfind] at hspot
      cases hspot
  · rintro ⟨o, ho, hcov, rfl⟩
    exact spot_of_covers hh hsup ho hcov

theorem any_spot (hh : h.Settled) (hsup : h.Supplied) (ho : h.object? id = some o) (a : Nat) :
    ((h.spot a).any fun spot => spot.1 = id) = decide (o.Covers a) := by
  by_cases hcov : o.Covers a
  · rw [spot_of_covers hh hsup ho hcov]
    simp [hcov]
  · rw [decide_eq_false hcov]
    cases hspot : h.spot a with
    | none => rfl
    | some spot =>
      obtain ⟨p, hp, hpa, -⟩ := (spot_eq_some hh hsup).1 hspot
      refine decide_eq_false fun heq => hcov ?_
      rw [heq, ho] at hp
      cases hp
      exact hpa

/-- Seen from outside, a call edits an object as it does in the heap. -/
theorem edit_exchange (hh : h.Settled) (hsup : h.Supplied) (hc : c.Admissible h)
    (ho : h.object? id = some o) {content : List UInt8} (hlen : content.length = o.len) :
    (h.exchange c).edit id content = c.edit id o content := by
  cases c with
  | write j offset bytes => simp only [Exchange.edit, exchange, Call.edit, hlen]
  | poke a bytes =>
    obtain ⟨j, p, hp, hle, hin⟩ := hc
    rcases bytes.eq_nil_or_concat with rfl | ⟨_, _, hbytes⟩
    · -- nothing is written, wherever that may be
      simp only [Exchange.edit, exchange, Call.edit, Memory.overwrite_nil, ite_self]
      split <;> rfl
    have hpos : 0 < bytes.length := by simp [hbytes]
    have hcov : p.Covers a := ⟨hle, by omega⟩
    have hspot : (Call.address? (.poke a bytes)).bind h.spot = some (j, a - p.address) :=
      spot_of_covers hh hsup hp hcov
    simp only [Exchange.edit, exchange, Call.edit, hspot]
    by_cases hj : j = id
    · subst hj
      rw [ho] at hp
      cases hp
      rw [if_pos rfl, if_pos ⟨hle, hin⟩]
    · rw [if_neg hj, if_neg]
      rintro ⟨hle', hin'⟩
      exact hj (eq_of_covers hh hp ho hcov ⟨hle', by omega⟩).1
  | _ => rfl

end Heap

end PinnedHeap
