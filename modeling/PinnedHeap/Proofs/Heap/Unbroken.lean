import PinnedHeap.Proofs.Heap.Report

/-!
# Histories without a fault

A call that is answered has done all that it does. What this is, as far as
places, buckets and counters are concerned, is listed by `Heap.Answers`: room
is reserved for an object, a collection is completed, put off or not wanted,
and whatever else is asked of a heap only `Alters` it. Other than `Responds`,
the list supposes nothing of the memory that buckets are given, neither where
it lies nor how much of it there is.

`Unbroken` is a heap with the turns that have led to it, all of them answered.
-/

namespace PinnedHeap.Heap

variable {placement : Nat → Nat} {config : Config} {h k : Heap} {c : Call} {x : Answer}
  {r : Report} {id : Nat}

/-! ## Calls that are answered -/

/-- Does the call reserve storage, or ask for a collection? -/
def Call.Stores : Call → Prop
  | .allocate _ => True
  | .collect => True
  | .collectIfWanted => True
  | _ => False

/-- The heap `k` is `h` but for one object, which has kept its place, for the content of memory,
or for the number of inhibitors. -/
inductive Alters (h : Heap) : Heap → Prop where
  | object {id : Nat} {o p : Object} (ho : h.object? id = some o) (hs : p.site = o.site)
      (hm : p.marked = o.marked) : Alters h (h.setObject id p)
  | memory (m : Memory) : Alters h { h with memory := m }
  | inhibitors (n : Nat) : Alters h { h with inhibitors := n }

theorem Alters.refl (h : Heap) : Alters h h := .memory h.memory

theorem Alters.sites (ha : Alters h k) : Sites h k := by
  cases ha with
  | object ho hs hm => exact .setObject ho hs
  | memory m => exact .of_objects rfl rfl rfl
  | inhibitors n => exact .of_objects rfl rfl rfl

theorem Alters.settled (ha : Alters h k) (hh : h.Settled) : k.Settled := by
  cases ha with
  | object ho hs hm => exact hh.setObject ho hs hm
  | memory m => exact hh.congr rfl rfl rfl rfl rfl rfl rfl
  | inhibitors n => exact hh.congr rfl rfl rfl rfl rfl rfl rfl

/-- What comes of a call that is answered. -/
inductive Answers (h : Heap) : Call → Answer → Heap → Prop where
  | allocated {len a : Nat} {k : Heap} (hpos : 0 < len)
      (hres : Reserves h (Word.roundUp len) a k) :
      Answers h (.allocate len) (.buffer ⟨h.freshId, len⟩) (k.furnish (.fresh a len))
  | altered {c : Call} {x : Answer} {k : Heap} (hc : ¬ c.Stores) (ha : Alters h k) :
      Answers h c x k
  | deferred {c : Call} (hc : h.Collects c) (hin : 0 < h.inhibitors) :
      Answers h c (.report none) { h with wantsCollection := true }
  | collected {c : Call} {r : Report} {k : Heap} (hc : h.Collects c) (hin : h.inhibitors = 0)
      (hk : Completes h r k) : Answers h c (.report (some r)) k
  | unwanted (hw : h.wantsCollection = false) :
      Answers h .collectIfWanted (.report none) h

/-! ## Running calls -/

theorem alters_read {α : Type} {f : Heap → HeapAction α} (hf : Alters h ((f h).run h).state) :
    Alters h ((Action.read >>= f).run h).state := hf

theorem alters_ofExcept {α β : Type} {f : α → HeapAction β} {x : Except Fault α}
    (hf : ∀ a, Alters h ((f a).run h).state) :
    Alters h ((Action.ofExcept x >>= f).run h).state := by
  cases x with
  | error e => exact .refl h
  | ok a => exact hf a

theorem alters_get {α : Type} {f : Object → HeapAction α}
    (hf : ∀ o, h.object? id = some o → Alters h ((f o).run h).state) :
    Alters h ((get id >>= f).run h).state := by
  rw [Action.run_bind]
  cases ho : h.object? id with
  | none =>
    rw [run_get_of_none ho]
    exact .refl h
  | some o =>
    rw [run_get ho]
    exact hf o ho

theorem state_addressOf (h : Heap) (id : Nat) : ((Heap.addressOf id).run h).state = h := by
  rw [Heap.addressOf, Action.run_bind]
  cases ho : h.object? id with
  | none => rw [run_get_of_none ho]
  | some o =>
    rw [run_get ho]
    rfl

/-- A call that stores nothing does no more than alter the heap, answered or not. -/
theorem alters_run (hc : ¬ c.Stores) (h : Heap) : Alters h (c.run.run h).state := by
  cases c with
  | allocate len => exact absurd trivial hc
  | collect => exact absurd trivial hc
  | collectIfWanted => exact absurd trivial hc
  | addressOf id =>
    rw [Call.run, run_return, state_addressOf]
    exact .refl h
  | write id offset bytes =>
    rw [Call.run, state_return]
    refine alters_get fun o ho => ?_
    exact alters_ofExcept fun _ => .memory _
  | read id =>
    rw [Call.run, run_return]
    exact alters_get fun o ho => .refl h
  | unroot id =>
    rw [Call.run, state_return]
    exact alters_get fun o ho => .object ho rfl rfl
  | retain a =>
    rw [Call.run, state_return]
    refine alters_read (alters_ofExcept fun found => ?_)
    cases found with
    | none => exact .refl h
    | some id =>
      refine alters_get fun o ho => ?_
      exact alters_ofExcept fun retains => .object ho rfl rfl
  | unretain a =>
    rw [Call.run, state_return]
    refine alters_read (alters_ofExcept fun found => ?_)
    cases found with
    | none => exact .refl h
    | some id =>
      refine alters_get fun o ho => ?_
      rw [Action.run_bind, Action.run_require]
      by_cases hr : o.isRetained = true
      · rw [if_pos hr]
        exact .object ho rfl rfl
      · rw [if_neg hr]
        exact .refl h
  | isRetained a =>
    rw [Call.run, run_return]
    show Alters h ((Heap.isRetained a).run h).state
    refine alters_read (alters_ofExcept fun found => ?_)
    cases found with
    | none => exact .refl h
    | some id => exact alters_get fun o ho => .refl h
  | inhibit id =>
    rw [Call.run, run_return]
    show Alters h ((Heap.inhibit id).run h).state
    refine alters_read (alters_ofExcept fun inhibitors => ?_)
    show Alters h ((Heap.addressOf id).run { h with inhibitors }).state
    rw [state_addressOf]
    exact .inhibitors _
  | allow =>
    rw [Call.run, state_return]
    refine alters_read ?_
    rw [Action.run_bind, Action.run_require]
    by_cases hpos : 0 < h.inhibitors
    · rw [if_pos hpos]
      exact .inhibitors _
    · rw [if_neg hpos]
      exact .refl h
  | poke a bytes => exact .memory _

theorem answers_of_collects (hw : h.Worded) (hc : h.Collects c)
    (hans : (c.run.run h).answer = .ok x) : Answers h c x (c.run.run h).state := by
  by_cases hin : 0 < h.inhibitors
  · obtain ⟨ns, hrun⟩ := run_collect_of_inhibited hin
    rw [run_of_collects hc, hrun] at hans ⊢
    cases hans
    exact .deferred hc hin
  · have hzero : h.inhibitors = 0 := Nat.eq_zero_of_not_pos hin
    rw [answer_of_collects hc hzero] at hans
    rw [state_of_collects hc hzero]
    cases hnow : (collectNow.run h).answer with
    | error e =>
      rw [hnow] at hans
      cases hans
    | ok r =>
      rw [hnow] at hans
      cases hans
      exact .collected hc hzero (completes_collectNow hw hnow)

theorem answers_allocate {len : Nat} (hans : ((Call.allocate len).run.run h).answer = .ok x) :
    Answers h (.allocate len) x ((Call.allocate len).run.run h).state := by
  have hresp : Responds h (.allocate len) _ _ := conforms_allocate h len
  rw [hans] at hresp
  generalize ((Call.allocate len).run.run h).state = k at hresp ⊢
  cases hresp with
  | allocated hpos hres => exact .allocated hpos hres
  | deferred hc hin => cases hc
  | collected hc hin hk hcan => cases hc

theorem map_ne_report {α : Type} {f : α → Answer} (hf : ∀ a r, f a ≠ .report r)
    (y : Except Fault α) (r : Option Report) : y.map f ≠ .ok (.report r) := by
  cases y with
  | error e => nofun
  | ok a =>
    intro heq
    exact hf a r (Except.ok.inj heq)

theorem answer_return {α β : Type} (y : HeapAction α) (b : β) (h : Heap) :
    ((y >>= fun _ => pure b).run h).answer = (y.run h).answer.map fun _ => b := by
  rw [Action.run_bind]
  rcases y.run h with ⟨z, k, ns⟩
  cases z <;> rfl

/-- Only who may collect is answered with a report. -/
theorem stores_of_report {r : Option Report} (hans : (c.run.run h).answer = .ok (.report r)) :
    c.Stores := by
  cases c with
  | allocate len => trivial
  | collect => trivial
  | collectIfWanted => trivial
  | addressOf id | read id | isRetained a | inhibit id =>
    rw [Call.run, run_return] at hans
    refine absurd hans (map_ne_report (fun a r heq => ?_) _ r)
    cases heq
  | _ =>
    rw [Call.run, answer_return] at hans
    refine absurd hans (map_ne_report (fun a r heq => ?_) _ r)
    cases heq

/-- What comes of a call that is answered is on the list. -/
theorem answers (hw : h.Worded) (hans : (c.run.run h).answer = .ok x) :
    Answers h c x (c.run.run h).state := by
  by_cases hc : c.Stores
  · cases c with
    | allocate len => exact answers_allocate hans
    | collect => exact answers_of_collects hw trivial hans
    | collectIfWanted =>
      cases hwants : h.wantsCollection with
      | true => exact answers_of_collects hw hwants hans
      | false =>
        rw [run_unwanted hwants] at hans ⊢
        cases hans
        exact .unwanted hwants
    | _ => cases hc
  · exact .altered hc (alters_run hc h)

/-! ## What calls keep -/

theorem Completes.worded (hk : Completes h r k) (hw : h.Worded) : k.Worded := by
  obtain ⟨m, ⟨t, l, hset, rfl⟩, -, rfl⟩ := hk.swept
  exact hset.worded (hw.of_sites (sites_prepare h))

theorem Worded.furnish (hk : k.Worded) (a len : Nat) : (k.furnish (.fresh a len)).Worded := by
  intro id p hp
  rcases mem_existing_enter (mem_existing hp) with rfl | hmem
  · exact Word.roundUp_mod_size len
  · obtain ⟨j, ho⟩ := exists_of_mem_existing hmem
    exact hk j p ho

theorem Answers.worded (ha : Answers h c x k) (hw : h.Worded) : k.Worded := by
  cases ha with
  | allocated hpos hres =>
    apply Worded.furnish
    intro id o ho
    rw [hres.object?] at ho
    exact hw id o ho
  | altered hc ha => exact hw.of_sites ha.sites
  | deferred hc hin => exact hw
  | collected hc hin hk => exact hk.worded hw
  | unwanted hwants => exact hw

theorem Answers.config_eq (ha : Answers h c x k) : k.config = h.config := by
  cases ha with
  | allocated hpos hres => exact (settings_furnish _ _).config.trans hres.config
  | altered hc ha => cases ha <;> rfl
  | deferred hc hin => rfl
  | collected hc hin hk =>
    obtain ⟨m, hm, -, rfl⟩ := hk.swept
    exact hm.settings.config
  | unwanted hwants => rfl

theorem Answers.extends (ha : Answers h c x k) : Extends h k := by
  cases ha with
  | allocated hpos hres => exact hres.extends.furnish _
  | altered hc ha => cases ha <;> exact .of_eq rfl rfl rfl
  | deferred hc hin => exact .of_eq rfl rfl rfl
  | collected hc hin hk =>
    obtain ⟨m, hm, -, rfl⟩ := hk.swept
    exact ⟨hm.extends.blocks, hm.extends.owned_le⟩
  | unwanted hwants => exact .refl h

theorem Answers.settled (ha : Answers h c x k) (hh : h.Settled)
    (hsup : Buckets.Supplied k.allBuckets) : k.Settled := by
  cases ha with
  | allocated hpos hres =>
    rw [allBuckets_furnish] at hsup
    exact (hh.furnish hpos hres hsup).1
  | altered hc ha => exact ha.settled hh
  | deferred hc hin => exact hh.congr rfl rfl rfl rfl rfl rfl rfl
  | collected hc hin hk =>
    obtain ⟨m, hm, -, rfl⟩ := hk.swept
    exact (hm.settled hh hsup).congr rfl rfl rfl rfl rfl rfl rfl
  | unwanted hwants => exact hh

/-! ## Histories -/

/-- A call, and the heap that it was made to. -/
structure Turn where
  before : Heap
  call : Call

/-- The heap comes out of a new one by calls of which none has broken off; `ts` are the turns,
the last one first. -/
inductive Unbroken (placement : Nat → Nat) (config : Config) : List Turn → Heap → Prop where
  | create : Unbroken placement config [] (Heap.create placement config)
  | call {ts : List Turn} {h : Heap} {x : Answer} (c : Call) (hr : Unbroken placement config ts h)
      (hans : (c.run.run h).answer = .ok x) :
      Unbroken placement config (⟨h, c⟩ :: ts) (c.run.run h).state

/-- Makes calls one after the other, up to the first one that breaks off. -/
def answered? (h : Heap) : List Call → Option Heap
  | [] => some h
  | c :: cs =>
    match (c.run.run h).answer with
    | .ok _ => (c.run.run h).state.answered? cs
    | .error _ => none

namespace Unbroken

variable {ts : List Turn}

theorem of_answered? (hr : Unbroken placement config ts h) {cs : List Call}
    (hk : h.answered? cs = some k) : ∃ us, Unbroken placement config (us ++ ts) k := by
  induction cs generalizing h ts with
  | nil =>
    cases hk
    exact ⟨[], hr⟩
  | cons c cs ih =>
    rw [answered?] at hk
    split at hk
    · next hans =>
      obtain ⟨us, hus⟩ := ih (hr.call c hans) hk
      exact ⟨us ++ [⟨h, c⟩], by rw [List.append_assoc]; exact hus⟩
    · cases hk

theorem worded (hr : Unbroken placement config ts h) : h.Worded := by
  induction hr with
  | create => exact (settled_create placement config).sound.worded
  | call c hr hans ih => exact (answers ih hans).worded ih

/-- What comes of one more call. -/
theorem answers (hr : Unbroken placement config ts h) (hans : (c.run.run h).answer = .ok x) :
    Answers h c x (c.run.run h).state := Heap.answers hr.worded hans

/-- A report is the answer to nothing but a collection that was completed. -/
theorem completes (hr : Unbroken placement config ts h)
    (hans : (c.run.run h).answer = .ok (.report (some r))) :
    h.Collects c ∧ h.inhibitors = 0 ∧ Completes h r (c.run.run h).state := by
  have hst := stores_of_report hans
  have ha := hr.answers hans
  generalize (c.run.run h).state = k at ha ⊢
  cases ha with
  | altered hc ha => exact absurd hst hc
  | collected hc hin hk => exact ⟨hc, hin, hk⟩

theorem config_eq (hr : Unbroken placement config ts h) : h.config = config := by
  induction hr with
  | create => rfl
  | call c hr hans ih => exact (hr.answers hans).config_eq.trans ih

/-- It is enough that the buckets there are in the end have blocks of their own: those are the
buckets that there ever were. -/
theorem settled (hr : Unbroken placement config ts h) (hsup : Buckets.Supplied h.allBuckets) :
    h.Settled := by
  induction hr with
  | create => exact settled_create placement config
  | call c hr hans ih =>
    have ha := hr.answers hans
    exact ha.settled (ih (hsup.covers ha.extends.blocks)) hsup

end Unbroken

end PinnedHeap.Heap
