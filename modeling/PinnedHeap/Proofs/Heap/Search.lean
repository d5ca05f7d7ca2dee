import PinnedHeap.Proofs.Heap.History

/-!
# The search, next to a scan of the table

`Heap.find?` asks the index for the last object that starts at or before an
address and looks at no other. `Heap.scan?` goes through the whole table and
does not know the index. On a heap with a history the two agree about every
address there is: also about those in the padding behind an object, at the end
of a bucket, and where an object was before it was moved or given up.

The calls that are given an address therefore do what they would do after a
scan, and all three mean the same object.
-/

namespace PinnedHeap.Heap

variable {placement : Nat → Nat} {config : Config} {h k : Heap} {hs : List Heap} {c : Call}
  {r : Except Fault Answer} {a id : Nat} {o : Object}

/-- The first id in the table whose object has the address among its bytes. -/
def scan? (h : Heap) (a : Nat) : Option Nat :=
  (List.range h.objects.length).find? fun id => (h.object? id).any fun o => o.Covers a

theorem any_covers_iff (h : Heap) (id a : Nat) :
    ((h.object? id).any fun o => o.Covers a) = true ↔ ∃ o, h.object? id = some o ∧ o.Covers a := by
  cases h.object? id <;> simp

theorem covers_of_scan? (hscan : h.scan? a = some id) :
    ∃ o, h.object? id = some o ∧ o.Covers a := by
  rw [scan?] at hscan
  have hany := List.find?_some hscan
  exact (any_covers_iff h id a).1 hany

theorem scan?_eq_none :
    h.scan? a = none ↔ ∀ id o, h.object? id = some o → ¬ o.Covers a := by
  rw [scan?, List.find?_eq_none]
  constructor
  · intro hnone id o ho hcov
    exact hnone id (List.mem_range.2 (object?_lt ho)) ((any_covers_iff h id a).2 ⟨o, ho, hcov⟩)
  · intro hnone id _ hany
    obtain ⟨o, ho, hcov⟩ := (any_covers_iff h id a).1 hany
    exact hnone id o ho hcov

/-- A scan meets the only object there is at the address. -/
theorem scan?_of_covers (hh : h.Settled) (ho : h.object? id = some o) (hcov : o.Covers a) :
    h.scan? a = some id := by
  cases hscan : h.scan? a with
  | none => exact absurd hcov (scan?_eq_none.1 hscan id o ho)
  | some j =>
    obtain ⟨p, hp, hpa⟩ := covers_of_scan? hscan
    rw [(eq_of_covers hh ho hp hcov hpa).1]

theorem scan?_eq_some (hh : h.Settled) :
    h.scan? a = some id ↔ ∃ o, h.object? id = some o ∧ o.Covers a :=
  ⟨covers_of_scan?, fun ⟨_, ho, hcov⟩ => scan?_of_covers hh ho hcov⟩

/-- The search and the scan agree. -/
theorem find?_eq_scan? (hh : h.Settled) (hsup : h.Supplied) (a : Nat) :
    h.find? a = .ok (h.scan? a) := by
  rcases find_cases hh hsup a with ⟨id, o, ho, hcov, hfind⟩ | ⟨hnone, hfind⟩
  · rw [hfind, scan?_of_covers hh ho hcov]
  · rw [hfind, scan?_eq_none.2 hnone]

/-! ## The calls that are given an address -/

/-- What an address means to a heap. -/
structure Resolves (h : Heap) (a : Nat) : Prop where
  /-- The search ends without a fault. -/
  found : h.find? a = .ok (h.scan? a)
  covered : ∀ id, h.scan? a = some id ↔ ∃ o, h.object? id = some o ∧ o.Covers a
  unique : ∀ i j o p, h.object? i = some o → h.object? j = some p → o.Covers a → p.Covers a →
    i = j ∧ o = p
  missed : h.scan? a = none →
    (Call.retain a).run.run h = ⟨.error (.nothingToRetain a), h, []⟩ ∧
      (Call.unretain a).run.run h = ⟨.error (.notRetained a), h, []⟩ ∧
      (Call.isRetained a).run.run h = ⟨.ok (.flag false), h, []⟩
  met : ∀ id o, h.scan? a = some id → h.object? id = some o →
    (Call.retain a).run.run h =
        (if o.retains + 1 < Word.limit then
          ⟨.ok .done, h.setObject id { o with retains := o.retains + 1 },
            [.retained a id (o.retains + 1)]⟩
        else ⟨.error .sumOverflow, h, []⟩) ∧
      (Call.unretain a).run.run h =
        (if 0 < o.retains then
          ⟨.ok .done, h.setObject id { o with retains := o.retains - 1 },
            [.unretained a id (o.retains - 1)]⟩
        else ⟨.error (.notRetained a), h, []⟩) ∧
      (Call.isRetained a).run.run h = ⟨.ok (.flag (decide (0 < o.retains))), h, []⟩

theorem resolves (hh : h.Settled) (hsup : h.Supplied) (a : Nat) : h.Resolves a where
  found := find?_eq_scan? hh hsup a
  covered id := scan?_eq_some hh
  unique i j o p ho hp hoa hpa := eq_of_covers hh ho hp hoa hpa
  missed hscan := by
    have hfind := find?_eq_scan? hh hsup a
    rw [hscan] at hfind
    exact ⟨run_retain_of_none hfind, run_unretain_of_none hfind, run_isRetained_of_none hfind⟩
  met id o hscan ho := by
    have hfind := find?_eq_scan? hh hsup a
    rw [hscan] at hfind
    exact ⟨run_retain hfind ho, run_unretain hfind ho, run_isRetained hfind ho⟩

namespace Resolves

/-- Either nothing covers the address, or one object does, and the calls mean this one. -/
theorem cases (hr : h.Resolves a) :
    (h.scan? a = none ∧ ∀ id o, h.object? id = some o → ¬ o.Covers a) ∨
      ∃ id o, h.scan? a = some id ∧ h.object? id = some o ∧ o.Covers a := by
  cases hscan : h.scan? a with
  | none => exact .inl ⟨rfl, scan?_eq_none.1 hscan⟩
  | some id =>
    obtain ⟨o, ho, hcov⟩ := (hr.covered id).1 hscan
    exact .inr ⟨id, o, rfl, ho, hcov⟩

/-- A call gives an answer to an address exactly if an object with `q` covers it, provided that
it does not where no object is, and that `q` decides where one is. -/
theorem answer_iff (hr : h.Resolves a) {x y : Except Fault Answer} {q : Object → Prop}
    (hmissed : h.scan? a = none → x ≠ y)
    (hmet : ∀ id o, h.scan? a = some id → h.object? id = some o → (x = y ↔ q o)) :
    x = y ↔ ∃ id o, h.object? id = some o ∧ o.Covers a ∧ q o := by
  rcases hr.cases with ⟨hscan, hnone⟩ | ⟨id, o, hscan, ho, hcov⟩
  · refine iff_of_false (hmissed hscan) ?_
    rintro ⟨id, o, ho, hcov, -⟩
    exact hnone id o ho hcov
  · rw [hmet id o hscan ho]
    constructor
    · exact fun hq => ⟨id, o, ho, hcov, hq⟩
    · rintro ⟨j, p, hp, hpa, hq⟩
      obtain ⟨-, rfl⟩ := hr.unique id j o p ho hp hcov hpa
      exact hq

/-- An address is retained if it lies in an object of which a word can count one more retain. -/
theorem retain_iff (hr : h.Resolves a) :
    ((Call.retain a).run.run h).answer = .ok .done ↔
      ∃ id o, h.object? id = some o ∧ o.Covers a ∧ o.retains + 1 < Word.limit := by
  refine hr.answer_iff ?_ ?_
  · intro hscan
    rw [(hr.missed hscan).1]
    nofun
  · intro id o hscan ho
    rw [(hr.met id o hscan ho).1]
    by_cases hlt : o.retains + 1 < Word.limit <;> simp [hlt]

/-- A retain is given back where an object is retained. -/
theorem unretain_iff (hr : h.Resolves a) :
    ((Call.unretain a).run.run h).answer = .ok .done ↔
      ∃ id o, h.object? id = some o ∧ o.Covers a ∧ 0 < o.retains := by
  refine hr.answer_iff ?_ ?_
  · intro hscan
    rw [(hr.missed hscan).2.1]
    nofun
  · intro id o hscan ho
    rw [(hr.met id o hscan ho).2.1]
    by_cases hpos : 0 < o.retains <;> simp [hpos]

theorem isRetained_iff (hr : h.Resolves a) :
    ((Call.isRetained a).run.run h).answer = .ok (.flag true) ↔
      ∃ id o, h.object? id = some o ∧ o.Covers a ∧ 0 < o.retains := by
  refine hr.answer_iff ?_ ?_
  · intro hscan
    rw [(hr.missed hscan).2.2]
    nofun
  · intro id o hscan ho
    rw [(hr.met id o hscan ho).2.2]
    simp

end Resolves

/-! ## How many retains there can be -/

theorem retainsAfter_le (c : Call) (o : Object) (r : Except Fault Answer) :
    c.retainsAfter o r ≤ o.retains + 1 := by
  unfold Call.retainsAfter
  repeat' split
  all_goals omega

/-- No call adds more than one retain to an object. -/
theorem Responds.retains_le (hr : Responds h c r k) (hh : h.Settled) (hsup : k.Supplied) {n : Nat}
    (hle : ∀ id o, h.object? id = some o → o.retains ≤ n) (ho : k.object? id = some o) :
    o.retains ≤ n + 1 := by
  by_cases hc : c.Admissible h
  · cases hbefore : h.object? id with
    | none =>
      cases hr.appears hh hsup hbefore with
      | absent answer after =>
        rw [ho] at after
        cases after
      | made call answer after content =>
        rw [ho] at after
        cases after
        exact Nat.zero_le _
    | some p =>
      cases hr.passes hh hsup hc hbefore with
      | gone collects dead after =>
        rw [ho] at after
        cases after
      | stays after len rooted retains place content =>
        rw [ho] at after
        cases after
        rw [retains]
        exact Nat.le_trans (retainsAfter_le c p r) (Nat.succ_le_succ (hle id p hbefore))
  · -- bytes that go elsewhere than into an object change no record
    cases c with
    | poke b bytes =>
      cases hr with
      | poked => exact Nat.le_succ_of_le (hle id o ho)
      | refused href => cases href
      | deferred hcol hin => cases hcol
      | collected hcol hin hk hcan => cases hcol
      | collectedInVain hcol hin hk hcan => cases hcol
    | _ => exact absurd trivial hc

/-- An object has no more retains than calls were made. -/
theorem Trail.retains_lt (hr : Trail placement config hs h) (ho : h.object? id = some o) :
    o.retains < hs.length := by
  induction hr generalizing id o with
  | create => cases ho
  | @call hs h c hr hsup ih =>
    have hresp := conforms hr.reached.settled hr.reached.supplied c hsup
    have hle : ∀ id o, h.object? id = some o → o.retains ≤ hs.length - 1 := by
      intro id o ho
      have := ih ho
      omega
    have hn := hresp.retains_le hr.reached.settled hsup hle ho
    have hpos : 0 < hs.length := by cases hr <;> exact Nat.succ_pos _
    rw [List.length_cons]
    omega

/-! ## Every address -/

/-- To every heap with a history, every address means what a scan of the table says, and no more
than one object. A retain is taken exactly where an object is, as long as so few calls were made
that a word counts them; it is given back, and the address counts as retained, exactly where an
object is retained. -/
theorem Trail.search_is_exact (hr : Trail placement config hs h) (a : Nat) :
    h.Resolves a ∧
      (((Call.retain a).run.run h).answer = .ok .done ↔
        ∃ id o, h.object? id = some o ∧ o.Covers a ∧ o.retains + 1 < Word.limit) ∧
      (hs.length < Word.limit →
        (((Call.retain a).run.run h).answer = .ok .done ↔
          ∃ id o, h.object? id = some o ∧ o.Covers a)) ∧
      (((Call.unretain a).run.run h).answer = .ok .done ↔
        ∃ id o, h.object? id = some o ∧ o.Covers a ∧ 0 < o.retains) ∧
      (((Call.isRetained a).run.run h).answer = .ok (.flag true) ↔
        ∃ id o, h.object? id = some o ∧ o.Covers a ∧ 0 < o.retains) := by
  have hres := resolves hr.reached.settled hr.reached.supplied a
  refine ⟨hres, hres.retain_iff, ?_, hres.unretain_iff, hres.isRetained_iff⟩
  intro hfew
  rw [hres.retain_iff]
  constructor
  · rintro ⟨id, o, ho, hcov, -⟩
    exact ⟨id, o, ho, hcov⟩
  · rintro ⟨id, o, ho, hcov⟩
    have := hr.retains_lt ho
    exact ⟨id, o, ho, hcov, by omega⟩

/-- Three objects: the first one is moved, the second one is retained and stays, and the third
one is given up. -/
def scattered : List Call :=
  [.allocate 5, .allocate 16, .allocate 3, .retain 0x10012, .unroot 2, .collect]

theorem scattered_search_is_exact :
    ∃ hs h, Trail (spaced 0x10000 0x10000) ⟨64, 64, 2, false⟩ hs h ∧
      -- nothing is found where the first object and the third one were, in the padding behind the
      -- first one, at the end of a bucket, and at either end of memory
      [0x10000, 0x10018, 0x10025, 0x10040, 0, 0xffffffffffffffff].map h.scan? =
        List.replicate 6 none ∧
      [0x10008, 0x10017, 0x10020, 0x10024].map h.scan? = [some 1, some 1, some 0, some 0] ∧
      ∀ a, h.Resolves a ∧
        (((Call.retain a).run.run h).answer = .ok .done ↔
          ∃ id o, h.object? id = some o ∧ o.Covers a) := by
  have hrun : ((create (spaced 0x10000 0x10000) ⟨64, 64, 2, false⟩).calls? scattered).map
      (fun h => ([0x10000, 0x10018, 0x10025, 0x10040, 0, 0xffffffffffffffff].map h.scan?,
        [0x10008, 0x10017, 0x10020, 0x10024].map h.scan?)) =
      some (List.replicate 6 none, [some 1, some 1, some 0, some 0]) := by
    decide +kernel
  obtain ⟨h, hcalls, heq⟩ := Option.map_eq_some_iff.1 hrun
  obtain ⟨hmissed, hmet⟩ := Prod.mk.inj heq
  obtain ⟨ks, hlen, htrail⟩ := Trail.create.of_calls?_length hcalls
  have hfew : (ks ++ [create (spaced 0x10000 0x10000) ⟨64, 64, 2, false⟩]).length <
      Word.limit := by
    rw [List.length_append, hlen]
    decide
  refine ⟨_, h, htrail, hmissed, hmet, fun a => ?_⟩
  obtain ⟨hres, -, hretain, -⟩ := Trail.search_is_exact htrail a
  exact ⟨hres, hretain hfew⟩

end PinnedHeap.Heap
