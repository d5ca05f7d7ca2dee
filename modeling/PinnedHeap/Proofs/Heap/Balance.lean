import Mathlib.Data.List.DropRight
import PinnedHeap.Proofs.Heap.Accounts

/-!
# Retains by the book

The number of an object's retains, read off the exchanges with the heap: what
was retained since the object was made, less what was given back. Other than
`Accounts`, the book knows nothing of who retains and who gives back, so the
exchanges must be those of everybody. It does not matter by which of its
addresses the object was named, nor where it was at the time.

An id is used again when its object is gone, and the book of the next object
starts anew: `Exchange.lifetime`.
-/

namespace PinnedHeap

open Heap (Call Answer)

namespace Exchange

/-- A buffer with this id was handed out. -/
def makes (id : Nat) (e : Exchange) : Bool :=
  match e.answer with
  | .ok (.buffer b) => b.id = id
  | _ => false

/-- An address inside the object was to be retained. -/
def asks (id : Nat) (e : Exchange) : Bool :=
  match e.call with
  | .retain _ => e.spot.any fun spot => spot.1 = id
  | _ => false

/-- What came after the last buffer with this id was handed out. -/
def lifetime (es : List Exchange) (id : Nat) : List Exchange :=
  es.rtakeWhile fun e => !e.makes id

/-- How often an address inside an object was to be retained since the object was made. -/
def taken (es : List Exchange) (id : Nat) : Nat := (lifetime es id).countP (asks id)

/-- How many retains of an object were given back since it was made. -/
def returned (es : List Exchange) (id : Nat) : Nat := (lifetime es id).countP (unretains id)

/-- At no time were more retains of an object outstanding than a word counts. -/
def Few (es : List Exchange) : Prop :=
  ∀ past, past <+: es → ∀ id, taken past id < returned past id + Word.limit

variable {es fs : List Exchange} {e : Exchange} {id : Nat}

/-- Nothing is retained and given back at once. -/
theorem not_unretains_of_asks (h : e.asks id = true) : e.unretains id = false := by
  unfold asks at h
  split at h
  · next hcall => simp only [unretains, hcall]
  · cases h

theorem asks_of_retains (h : e.retains id = true) : e.asks id = true := by
  unfold retains at h
  split at h
  · next hcall _ => rwa [asks, hcall]
  · cases h

theorem Few.of_append (h : Few (es ++ fs)) : Few es :=
  fun past hpast => h past (hpast.trans (List.prefix_append es fs))

theorem Few.lt (h : Few es) (id : Nat) : taken es id < returned es id + Word.limit :=
  h es (List.prefix_refl es) id

theorem few_of_length (h : es.length < Word.limit) : Few es := by
  intro past hpast id
  have htaken : taken past id ≤ (lifetime past id).length := List.countP_le_length
  have hlife := (List.rtakeWhile_suffix (fun e => !e.makes id) past).length_le
  have hlen := hpast.length_le
  rw [lifetime] at htaken
  omega

theorem lifetime_of_makes (h : e.makes id = true) : lifetime (es ++ [e]) id = [] := by
  rw [lifetime, List.rtakeWhile_concat_neg _ _ _ (by simp [h])]

theorem lifetime_of_not_makes (h : e.makes id = false) :
    lifetime (es ++ [e]) id = lifetime es id ++ [e] := by
  rw [lifetime, List.rtakeWhile_concat_pos _ _ _ (by simp [h]), lifetime]

/-- A new object is not retained. -/
theorem taken_of_makes (es : List Exchange) (h : e.makes id = true) :
    taken (es ++ [e]) id = 0 ∧ returned (es ++ [e]) id = 0 := by
  rw [taken, returned, lifetime_of_makes h]
  exact ⟨rfl, rfl⟩

theorem taken_of_not_makes (es : List Exchange) (h : e.makes id = false) :
    taken (es ++ [e]) id = taken es id + (if e.asks id then 1 else 0) ∧
      returned (es ++ [e]) id = returned es id + if e.unretains id then 1 else 0 := by
  simp only [taken, returned, lifetime_of_not_makes h, List.countP_append, List.countP_singleton,
    and_self]

end Exchange

namespace Heap

open Exchange (taken returned Few)

variable {h k : Heap} {c : Call} {r : Except Fault Answer} {id : Nat} {o : Object}
  {es fs : List Exchange}

/-- The number of retains of every object is the one that the exchanges tell. -/
def Balanced (h : Heap) (es : List Exchange) : Prop :=
  ∀ (id : Nat) (o : Object), h.object? id = some o → o.retains + returned es id = taken es id

theorem balanced_create (placement : Nat → Nat) (config : Config) :
    (create placement config).Balanced [] := by
  intro id o ho
  cases ho

/-- The book is right after a call if it is right for the objects that were there, and for
the one that was made. -/
theorem Responds.balanced (hr : Responds h c r k) (hh : h.Settled) (hsup : k.Supplied)
    (hc : c.Admissible h)
    (hold : ∀ {id o}, h.object? id = some o → c.retainsAfter o r + returned fs id = taken fs id)
    (hnew : ∀ {id len}, r = .ok (.buffer ⟨id, len⟩) → taken fs id = returned fs id) :
    k.Balanced fs := by
  intro id p hp
  cases ho : h.object? id with
  | none =>
    cases hr.appears hh hsup ho with
    | absent answer after =>
      rw [hp] at after
      cases after
    | made call answer after content =>
      rw [hp] at after
      cases after
      rw [hnew answer]
      exact Nat.zero_add _
  | some o =>
    cases hr.passes hh hsup hc ho with
    | gone collects dead after =>
      rw [hp] at after
      cases after
    | stays after len rooted retains place content =>
      rw [hp] at after
      cases after
      rw [retains]
      exact hold ho

/-- A call that is not in the book: it retains nothing, gives nothing back and makes no
object. -/
theorem Balanced.neutral (hb : h.Balanced es) (hr : Responds h c r k) (hh : h.Settled)
    (hsup : k.Supplied) (hc : c.Admissible h) (hsame : ∀ o, c.retainsAfter o r = o.retains)
    (hmade : ∀ len, c ≠ .allocate len) : k.Balanced es := by
  refine hr.balanced hh hsup hc ?_ ?_
  · intro id o ho
    rw [hsame]
    exact hb id o ho
  · intro id len hans
    subst hans
    cases hr with
    | allocated hpos hres => exact absurd rfl (hmade _)

/-! ## A call that is in the book -/

/-- An id is handed out only when it is free. -/
theorem makes_exchange (hr : Responds h c (h.exchange c).answer k) (hh : h.Settled)
    (ho : h.object? id = some o) : (h.exchange c).makes id = false := by
  unfold Exchange.makes
  split
  · next b hans =>
    apply decide_eq_false
    rintro rfl
    rw [hr.object?_eq_none hh hans] at ho
    cases ho
  · rfl

/-- Whoever wants to retain an object does so, as long as a word counts the retains. -/
theorem asks_exchange (hr : Responds h c (h.exchange c).answer k) (hh : h.Settled)
    (hsup : h.Supplied) (ho : h.object? id = some o)
    (hlt : (h.exchange c).asks id = true → o.retains + 1 < Word.limit) :
    (h.exchange c).retains id = (h.exchange c).asks id := by
  cases c with
  | retain a =>
    have hany := any_spot hh hsup ho a
    simp only [Exchange.asks, Exchange.retains, exchange, Call.address?, Option.bind_some,
      hany] at hr hlt ⊢
    cases hans : ((Call.retain a).run.run h).answer with
    | ok x => rfl
    | error e =>
      rw [hans] at hr
      symm
      apply decide_eq_false
      intro hcov
      rcases hr.of_retain hh ho hcov with ⟨-, hok, -⟩ | ⟨hge, -, -⟩
      · cases hok
      · exact hge (hlt (decide_eq_true hcov))
  | _ => rfl

/-- Only what was retained is given back. -/
theorem retains_pos_of_unretains (hr : Responds h c (h.exchange c).answer k) (hh : h.Settled)
    (hsup : h.Supplied) (ho : h.object? id = some o)
    (hun : (h.exchange c).unretains id = true) : 0 < o.retains := by
  cases c with
  | unretain a =>
    have hany := any_spot hh hsup ho a
    simp only [Exchange.unretains, exchange, Call.address?, Option.bind_some, hany] at hr hun
    cases hans : ((Call.unretain a).run.run h).answer with
    | error e =>
      rw [hans] at hun
      cases hun
    | ok x =>
      rw [hans] at hr hun
      rcases hr.of_unretain hh ho (of_decide_eq_true hun) with ⟨hpos, -, -⟩ | ⟨-, ⟨e, he⟩, -⟩
      · exact hpos
      · cases he
  | _ => cases hun

theorem Balanced.exchange (hb : h.Balanced es) (hr : Responds h c (h.exchange c).answer k)
    (hh : h.Settled) (hsup : h.Supplied) (hsup' : k.Supplied) (hc : c.Admissible h)
    (hfew : Few (es ++ [h.exchange c])) : k.Balanced (es ++ [h.exchange c]) := by
  refine hr.balanced hh hsup' hc ?_ ?_
  · intro id o ho
    obtain ⟨htaken, hreturned⟩ := Exchange.taken_of_not_makes es (makes_exchange hr hh ho)
    have hbook := hb id o ho
    have hlt := hfew.lt id
    rw [htaken, hreturned] at hlt
    have hasks := asks_exchange hr hh hsup ho fun hasks => by
      simp only [hasks, Exchange.not_unretains_of_asks hasks, if_true, Bool.false_eq_true,
        if_false] at hlt
      omega
    have hpos := retains_pos_of_unretains hr hh hsup ho
    rw [htaken, hreturned, retainsAfter_exchange hh hsup c ho, hasks]
    cases hun : (h.exchange c).unretains id with
    | true =>
      have := hpos hun
      simp only [if_true]
      omega
    | false =>
      simp only [Bool.false_eq_true, if_false]
      omega
  · intro id len hans
    have hmakes : (h.exchange c).makes id = true := by simp [Exchange.makes, hans]
    obtain ⟨htaken, hreturned⟩ := Exchange.taken_of_makes es hmakes
    rw [htaken, hreturned]

/-- A retained object outlives every call, and is not retained any longer if the call has given
its last retain back. -/
theorem Responds.released_iff (hr : Responds h c (h.exchange c).answer k) (hh : h.Settled)
    (hsup : h.Supplied) (hsup' : k.Supplied) (hc : c.Admissible h) (ho : h.object? id = some o)
    {a : Nat} (hcov : o.Covers a) (hpos : 0 < o.retains) :
    ∃ p, k.object? id = some p ∧ p.Covers a ∧
      (p.retains = 0 ↔ o.retains = 1 ∧ (h.exchange c).unretains id = true) := by
  cases hr.passes hh hsup' hc ho with
  | gone collects dead after => exact absurd hpos (not_isLive dead)
  | stays after len rooted retains place content =>
    refine ⟨_, after, ?_, ?_⟩
    · rw [Object.Covers, place (.inl hpos), len]
      exact hcov
    rw [retains, retainsAfter_exchange hh hsup c ho]
    cases hun : (h.exchange c).unretains id with
    | false =>
      simp only [Bool.false_eq_true, if_false, and_false, iff_false]
      omega
    | true =>
      have hret : (h.exchange c).retains id = false := by
        apply Bool.eq_false_iff.2
        intro hret
        rw [Exchange.not_unretains_of_asks (Exchange.asks_of_retains hret)] at hun
        cases hun
      simp only [hret, Bool.false_eq_true, if_false, if_true, and_true]
      omega

/-- Whether an address is retained depends on its object. -/
theorem isRetained_of_covers (hh : h.Settled) (hsup : h.Supplied) (ho : h.object? id = some o)
    {a : Nat} (hcov : o.Covers a) :
    ((Call.isRetained a).run.run h).answer = .ok (.flag (decide (0 < o.retains))) := by
  rw [run_isRetained (find?_of_covers hh hsup ho hcov) ho]

/-- Whether an address is retained can be told from the book. -/
theorem Balanced.isRetained (hb : h.Balanced es) (hh : h.Settled) (hsup : h.Supplied)
    (ho : h.object? id = some o) {a : Nat} (hcov : o.Covers a) :
    ((Call.isRetained a).run.run h).answer =
      .ok (.flag (decide (returned es id < taken es id))) := by
  have hbook := hb id o ho
  rw [isRetained_of_covers hh hsup ho hcov, ← hbook]
  simp

end Heap

end PinnedHeap
