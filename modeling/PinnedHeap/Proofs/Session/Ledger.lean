import PinnedHeap.Proofs.Heap.Balance
import PinnedHeap.Proofs.Session.Pinned

/-!
# The ledger of a session

A run once more, with a second label: the exchanges of owners and of tasks with
the heap, in the order in which they were made. By this ledger the number of
retains of every object is right at all times. And what a task gives back in
the end is what it has retained in the beginning: the object has not been
another one in between, so the task does not fail.
-/

namespace PinnedHeap

open Heap (Call Answer)
open Exchange (Matched Few taken returned)

/-- What owners do to the heap on account of their guards: at most, they put collections off
or allow them again. -/
inductive Heap.Tended (h : Heap) : Heap → Prop where
  | nothing : Tended h h
  | inhibited {id : Nat} : Tended h ((Call.inhibit id).run.run h).state
  | allowed : Tended h (Call.allow.run.run h).state

namespace Session

variable {s₀ s t u : Session} {m : Move} {es fs log : List Exchange}

/-! ## The ledger -/

/-- The call that is entered for a move. -/
def call? (s : Session) : Move → Option Call
  | .go (.task j) => s.shared.tasks[j]?.bind fun u => u.due?.map Prod.fst
  | m => m.call?

/-- What is entered for a move. -/
def entries (s : Session) (m : Move) : List Exchange := ((s.call? m).map s.heap.exchange).toList

/-- What a move does to the heap: the call that is entered for it, or hardly anything. -/
inductive Enters (s : Session) (m : Move) (t : Session) : Prop where
  | called {c : Call} (hc : s.call? m = some c) (hh : t.heap = (c.run.run s.heap).state)
  | tended (hc : s.call? m = none) (hh : s.heap.Tended t.heap)

theorem entries_of_call? {c : Call} (hc : s.call? m = some c) :
    s.entries m = [s.heap.exchange c] := by
  rw [entries, hc]
  rfl

theorem entries_of_call?_none (hc : s.call? m = none) : s.entries m = [] := by
  rw [entries, hc]
  rfl

theorem length_entries_le (s : Session) (m : Move) : (s.entries m).length ≤ 1 := by
  unfold entries
  cases s.call? m <;> simp

theorem admissible_of_call? (hm : m.Admissible s.heap) {c : Call} (hc : s.call? m = some c) :
    c.Admissible s.heap := by
  unfold call? at hc
  split at hc
  · obtain ⟨u, -, hu⟩ := Option.bind_eq_some_iff.1 hc
    obtain ⟨⟨d, next⟩, hd, rfl⟩ := Option.map_eq_some_iff.1 hu
    unfold Task.due? at hd
    split at hd <;> cases hd <;> trivial
  · exact hm c hc

theorem tended_of_moves {i : Nat} (h : s.Moves (.owner i) t) (hs : s.Wired)
    (hnone : s.Uncalled) : s.heap.Tended t.heap := by
  cases h with
  | @owner i w w' p ns hw h =>
    have hmem := List.mem_of_getElem? hw
    have htouches := h.touches (hs.owner w hmem)
    show s.heap.Tended p.managed
    generalize p.managed = k at htouches
    cases htouches with
    | nothing => exact .nothing
    | called hc => exact absurd hc (hnone w hmem _)
    | inhibited => exact .inhibited
    | allowed => exact .allowed

theorem enters_of_move? (h : s.move? m = some t) (hs : s.Wired) (hr : s.Resting) :
    Enters s m t := by
  rcases move?_cases h with ⟨i, r, w, rfl, hw, hstage, hmove⟩ | ⟨a, rfl, hmove⟩
  · have hother : (∀ c, r ≠ .call c) → Enters s (.ask i r) t := by
      intro hne
      have hc : s.call? (.ask i r) = none := by
        cases r with
        | call c => exact absurd rfl (hne c)
        | _ => rfl
      have htended := tended_of_moves hmove (told_wired hw hs r) (hr.uncalled_told hw hne)
      exact .tended hc htended
    cases r with
    | call c =>
      cases hmove with
      | owner hw' hstep =>
        rw [getElem?_told hw] at hw'
        cases hw'
        exact .called rfl (hstep.act_eq hstage rfl).2
    | _ => exact hother (by simp)
  · cases a with
    | owner i =>
      exact .tended rfl (tended_of_moves hmove hs hr.uncalled)
    | task j =>
      cases hmove with
      | @task i v v' p ns hv hstep =>
        have hwired := hs.task v (List.mem_of_getElem? hv)
        cases hd : v.due? with
        | none =>
          have hc : s.call? (.go (.task j)) = none := by simp [call?, hv, hd]
          refine .tended hc ?_
          show s.heap.Tended p.managed
          rw [hstep.managed_of_not_due hwired hd]
          exact .nothing
        | some due =>
          have hc : s.call? (.go (.task j)) = some due.1 := by simp [call?, hv, hd]
          exact .called hc (hstep.due hwired hd).1

/-- A run with the exchanges `es` of the owners, and the exchanges `log` of everybody. -/
inductive Logs (s : Session) : List Exchange → List Exchange → Session → Prop where
  | refl : Logs s [] [] s
  | move {es log : List Exchange} {t u : Session} (m : Move) (h : Logs s es log t)
      (hm : t.move? m = some u) (hc : m.Admissible t.heap) (hs : u.heap.Supplied) :
      Logs s (es ++ m.exchanges t.heap) (log ++ t.entries m) u

namespace Logs

theorem runs (h : Logs s es log t) : Runs s es t := by
  induction h with
  | refl => exact .refl
  | move m h hm hc hs ih => exact ih.move m hm hc hs

theorem trans {log' : List Exchange} (h : Logs s es log t) (h' : Logs t fs log' u) :
    Logs s (es ++ fs) (log ++ log') u := by
  induction h' with
  | refl =>
    rw [List.append_nil, List.append_nil]
    exact h
  | move m h' hm hc hsup ih =>
    rw [← List.append_assoc, ← List.append_assoc]
    exact ih.move m hm hc hsup

/-- What a list of moves does is on record. -/
theorem of_moves? {ms : List Move} (h : s.moves? ms = some (es, t)) :
    ∃ log, Logs s es log t ∧ log.length ≤ ms.length := by
  induction ms generalizing s es with
  | nil =>
    cases h
    exact ⟨[], .refl, Nat.le_refl _⟩
  | cons m ms ih =>
    simp only [moves?, Option.bind_eq_bind, Option.bind_eq_some_iff, Option.guard_eq_some'] at h
    obtain ⟨u, hu, -, ⟨hc, hsup⟩, ⟨fs, v⟩, hrest, heq⟩ := h
    cases heq
    obtain ⟨log, hlog, hlen⟩ := ih hrest
    have hone := length_entries_le s m
    refine ⟨s.entries m ++ log, (Logs.refl.move m hu hc hsup).trans hlog, ?_⟩
    rw [List.length_append, List.length_cons]
    omega

end Logs

/-! ## The ledger is right -/

theorem balanced_of_move? (hb : s.heap.Balanced log) (hs : s.Sound) (h : s.move? m = some t)
    (hc : m.Admissible s.heap) (hsup : t.heap.Supplied) (hfew : Few (log ++ s.entries m)) :
    t.heap.Balanced (log ++ s.entries m) := by
  cases enters_of_move? h hs.wired hs.resting with
  | called hcall hh =>
    rw [entries_of_call? hcall] at hfew ⊢
    exact hb.exchange (hs.responds hh hsup) hs.settled hs.supplied hsup
      (admissible_of_call? hc hcall) hfew
  | tended hcall hh =>
    rw [entries_of_call?_none hcall, List.append_nil]
    have hneutral : ∀ {c : Call}, t.heap = (c.run.run s.heap).state → c.Admissible s.heap →
        (∀ o r, c.retainsAfter o r = o.retains) → (∀ len, c ≠ .allocate len) →
        t.heap.Balanced log := fun hh hadm hsame hmade =>
      hb.neutral (hs.responds hh hsup) hs.settled hsup hadm (fun o => hsame o _) hmade
    generalize hk : t.heap = k at hh
    cases hh with
    | nothing => exact hb
    | inhibited => exact hk ▸ hneutral hk trivial (fun _ _ => rfl) (by simp)
    | allowed => exact hk ▸ hneutral hk trivial (fun _ _ => rfl) (by simp)

theorem Logs.balanced (h : Logs s es log t) (hs : s.Sound) (hb : s.heap.Balanced [])
    (hfew : Few log) : t.heap.Balanced log := by
  induction h with
  | refl => exact hb
  | move m h hm hc hsup ih =>
    exact balanced_of_move? (ih hfew.of_append) (h.runs.sound hs) hm hc hsup hfew

/-! ## From retaining to giving back -/

/-- The step of task `j` from `r` to `s` retains the address `a`, and with it the object
`id`. -/
structure Retains (r : Session) (j a id : Nat) (s : Session) : Prop where
  move : r.move? (.go (.task j)) = some s
  due : r.Retaining j a
  object : ∃ o, r.heap.object? id = some o ∧ o.Covers a ∧
    s.heap = r.heap.setObject id { o with retains := o.retains + 1 }
  held : s.Holds j a

/-- The step of task `j` from `t` to `u` gives the address `a` back, and with it a retain of
the object `id`; the task goes on. -/
structure GivesBack (t : Session) (j a id : Nat) (u : Session) : Prop where
  move : t.move? (.go (.task j)) = some u
  object : ∃ p, t.heap.object? id = some p ∧ p.Covers a ∧ 0 < p.retains ∧
    u.heap = t.heap.setObject id { p with retains := p.retains - 1 }
  unharmed : ∃ v, u.shared.tasks[j]? = some v ∧ v.phase = .countOut

/-- What the step of a task that calls the heap does. -/
theorem due_of_move? {j : Nat} {v : Task Heap} {c : Call} {next : Phase}
    (h : s.move? (.go (.task j)) = some t) (hs : s.Wired) (hv : s.shared.tasks[j]? = some v)
    (hd : v.due? = some (c, next)) :
    t.heap = (c.run.run s.heap).state ∧
      t.shared.tasks[j]? = some (v.after next ((c.run.run s.heap).answer.map fun _ => ())) := by
  cases Threads.moves_of_step? (a := .task j) h with
  | @task i x x' p ns hx hstep =>
    rw [hv] at hx
    cases hx
    obtain ⟨hh, hx'⟩ := hstep.due (hs.task v (List.mem_of_getElem? hv)) hd
    refine ⟨hh, ?_⟩
    rw [hstep.getElem?_self hv, hx']
    rfl

theorem retains_of_move? {j a : Nat} (h : s.move? (.go (.task j)) = some t) (hs : s.Sound)
    (hsup : t.heap.Supplied) (hdue : s.Retaining j a) (ht : t.Holds j a) :
    ∃ id, Retains s j a id t := by
  obtain ⟨v, hv, rfl, hp⟩ := hdue
  have hd : v.due? = some (.retain v.address, .countIn) := by simp [Task.due?, hp]
  obtain ⟨hh, hafter⟩ := due_of_move? h hs.wired hv hd
  have hheld := ht
  obtain ⟨w, hw, -, hholds⟩ := ht
  rw [hafter] at hw
  cases hw
  have hr := hs.responds hh hsup
  cases hans : ((Call.retain v.address).run.run s.heap).answer with
  | error e =>
    rw [hans] at hholds
    cases hholds
  | ok x =>
    rw [hans] at hr
    generalize hk : t.heap = k at hr
    cases hr with
    | retained ho hcov hlt => exact ⟨_, h, ⟨v, hv, rfl, hp⟩, ⟨_, ho, hcov, hk⟩, hheld⟩
    | deferred hcol hin => cases hcol
    | collected hcol hin hk hcan => cases hcol

/-- A task that is about to give its address back can do so. -/
theorem givesBack_of_unretain {j id : Nat} {v : Task Heap} {p : Object} (ht : t.Sound)
    (ha : t.Accounted es) (hv : t.shared.tasks[j]? = some v) (hp : v.phase = .unretain)
    (ho : t.heap.object? id = some p) (hcov : p.Covers v.address) :
    ∃ u, GivesBack t j v.address id u := by
  obtain ⟨u, hu⟩ := Threads.exists_step?_task hv (by simp [Task.isReady, hp])
  have hd : v.due? = some (.unretain v.address, .countOut) := by simp [Task.due?, hp]
  obtain ⟨hh, hafter⟩ := due_of_move? hu ht.wired hv hd
  have hholds : t.Holds j v.address := ⟨v, hv, rfl, by simp [Task.Holds, hp]⟩
  have hpos := Heap.Accounts.retains_pos ha ho hholds.mem_held hcov
  have hr : Heap.Responds t.heap _ _ _ := Heap.conforms_unretain ht.settled ht.supplied v.address
  rcases hr.of_unretain ht.settled ho hcov with ⟨-, hok, hk⟩ | ⟨hzero, -, -⟩
  · rw [hok] at hafter
    exact ⟨u, hu, ⟨p, ho, hcov, hpos, hh.trans hk⟩, _, hafter, rfl⟩
  · omega

theorem holds_of_move? {j a : Nat} (h : s.move? m = some t) (ht : t.Holds j a) :
    s.Holds j a ∨ (m = .go (.task j) ∧ s.Retaining j a) := by
  rcases move?_cases h with ⟨i, r, w, rfl, hw, -, hmove⟩ | ⟨b, rfl, hmove⟩
  · rcases hmove.holds ht with hold | ⟨hb, -⟩
    · exact .inl hold
    · cases hb
  · rcases hmove.holds ht with hold | ⟨rfl, hdue⟩
    · exact .inl hold
    · exact .inr ⟨rfl, hdue⟩

/-- A run in the course of which a task came to hold an address goes through the step in which
the task retained it. -/
theorem Logs.retained {j a : Nat} (h : Logs s₀ es log t) (hs : s₀.Sound)
    (hnone : ¬ s₀.Holds j a) (ht : t.Holds j a) :
    ∃ id es₁ es₂ past since r s, es = es₁ ++ es₂ ∧
      log = past ++ r.heap.exchange (.retain a) :: since ∧ Logs s₀ es₁ past r ∧
      Retains r j a id s ∧ Logs s₀ es₁ (past ++ [r.heap.exchange (.retain a)]) s ∧
      Logs s es₂ since t := by
  induction h with
  | refl => exact absurd ht hnone
  | @move es log t u m h hmove hc hsup ih =>
    rcases holds_of_move? hmove ht with hold | ⟨rfl, hdue⟩
    · obtain ⟨id, es₁, es₂, past, since, r, s, rfl, rfl, hr, hretains, hs', hst⟩ := ih hold
      refine ⟨id, es₁, es₂ ++ m.exchanges t.heap, past, since ++ t.entries m, r, s,
        List.append_assoc _ _ _, ?_, hr, hretains, hs', hst.move m hmove hc hsup⟩
      rw [List.append_assoc, List.cons_append]
    · obtain ⟨id, hretains⟩ := retains_of_move? hmove (h.runs.sound hs) hsup hdue ht
      obtain ⟨v, hv, rfl, hp⟩ := hdue
      have hcall : t.call? (.go (.task j)) = some (.retain v.address) := by
        simp [call?, hv, Task.due?, hp]
      have hu := h.move _ hmove hc hsup
      rw [entries_of_call? hcall] at hu ⊢
      have hnil : Move.exchanges t.heap (.go (.task j)) = [] := rfl
      rw [hnil, List.append_nil] at hu ⊢
      exact ⟨id, es, [], log, [], t, u, (List.append_nil es).symm, rfl, h, hretains, hu, .refl⟩

/-- As long as an address is held, the id of its object is not handed out. -/
theorem Logs.not_makes {j a id : Nat} {o : Object} (h : Logs s fs log t) (hs : s.Sound)
    (ha : s.Accounted es) (hm : Matched (es ++ fs)) (hholds : s.Holds j a) (ht : t.Holds j a)
    (ho : s.heap.object? id = some o) (hcov : o.Covers a) : ∀ e ∈ log, e.makes id = false := by
  induction h with
  | refl =>
    intro e he
    cases he
  | @move fs log t u m h hmove hc hsup ih =>
    rw [← List.append_assoc] at hm
    have hold := holds_between hholds ht h.runs.grows (grows_of_move? hmove)
    obtain ⟨p, hp, -⟩ := h.runs.keeps hs ha hm.of_append hholds hold ho hcov
    have htsound := h.runs.sound hs
    intro e he
    rcases List.mem_append.1 he with he | he
    · exact ih hm.of_append hold e he
    · cases enters_of_move? hmove htsound.wired htsound.resting with
      | called hcall hh =>
        rw [entries_of_call? hcall, List.mem_singleton] at he
        rw [he]
        exact Heap.makes_exchange (htsound.responds hh hsup) htsound.settled hp
      | tended hcall hh =>
        rw [entries_of_call?_none hcall] at he
        cases he

/-- In the run with the ledger `log` from `s₀` to `t`, task `j` has retained an address of the
object `id`, and has yet to give it back: that will be possible, and it will go to the object
that it was, as the id has not been handed out since. -/
structure Undoes (s₀ : Session) (log : List Exchange) (t : Session) (j a id : Nat) : Prop where
  retained : ∃ es₁ es₂ past since r s, log = past ++ r.heap.exchange (.retain a) :: since ∧
    (∀ e ∈ since, e.makes id = false) ∧ Logs s₀ es₁ past r ∧ Retains r j a id s ∧
    Logs s es₂ since t
  givesBack : ∃ u, GivesBack t j a id u

theorem Logs.undoes {j : Nat} {v : Task Heap} (h : Logs s₀ es log t) (hs : s₀.Sound)
    (ha : s₀.Accounted []) (hm : Matched es) (hnone : s₀.shared.tasks = [])
    (hv : t.shared.tasks[j]? = some v) (hp : v.phase = .unretain) :
    ∃ id, Undoes s₀ log t j v.address id := by
  have hnot : ¬ s₀.Holds j v.address := by
    rintro ⟨w, hw, -⟩
    rw [hnone] at hw
    cases hw
  have hholds : t.Holds j v.address := ⟨v, hv, rfl, by simp [Task.Holds, hp]⟩
  have haccounted := h.runs.accounted hs ha (by simpa using hm)
  obtain ⟨id, es₁, es₂, past, since, r, s, rfl, rfl, hr, hretains, hs', hst⟩ :=
    h.retained hs hnot hholds
  have hssound := hs'.runs.sound hs
  have hsaccounted := hs'.runs.accounted hs ha hm.of_append
  rw [List.nil_append] at hsaccounted
  obtain ⟨o, ho, hcov, hheap⟩ := hretains.object
  have hso : s.heap.object? id = some { o with retains := o.retains + 1 } := by
    rw [hheap, Heap.object?_setObject (Heap.object?_lt ho), if_pos rfl]
  -- the address has been held from the one step to the other
  obtain ⟨p, hp', haddress, hlen, -⟩ :=
    hst.runs.keeps hssound hsaccounted hm hretains.held hholds hso hcov
  have hpcov : p.Covers v.address := by
    rw [Object.Covers, haddress, hlen]
    exact hcov
  have hsame := hst.not_makes hssound hsaccounted hm hretains.held hholds hso hcov
  exact ⟨id, ⟨es₁, es₂, past, since, r, s, rfl, hsame, hr, hretains, hst⟩,
    givesBack_of_unretain (h.runs.sound hs) haccounted hv hp hp' hpcov⟩

/-! ## The last retain -/

/-- An object that is retained ceases to be so by the move that gives its last retain back,
and by no other. -/
theorem released_iff {id a : Nat} {o : Object} (hs : s.Sound) (hb : s.heap.Balanced log)
    (h : s.move? m = some t) (hc : m.Admissible s.heap) (hsup : t.heap.Supplied)
    (ho : s.heap.object? id = some o) (hcov : o.Covers a) (hpos : 0 < o.retains) :
    ((Call.isRetained a).run.run t.heap).answer = .ok (.flag false) ↔
      taken log id = returned log id + 1 ∧ ∃ e ∈ s.entries m, e.unretains id = true := by
  have hbook := hb id o ho
  have ht := hs.move? h hsup
  have hflag : ∀ {p : Object}, t.heap.object? id = some p → p.Covers a →
      (((Call.isRetained a).run.run t.heap).answer = .ok (.flag false) ↔ p.retains = 0) := by
    intro p hp hpa
    rw [Heap.isRetained_of_covers ht.settled ht.supplied hp hpa]
    simp
  have hcalled : ∀ {c : Call}, t.heap = (c.run.run s.heap).state → c.Admissible s.heap →
      (((Call.isRetained a).run.run t.heap).answer = .ok (.flag false) ↔
        o.retains = 1 ∧ (s.heap.exchange c).unretains id = true) := by
    intro c hh hadm
    have hr : Heap.Responds s.heap c (s.heap.exchange c).answer t.heap := hs.responds hh hsup
    obtain ⟨p, hp, hpa, hiff⟩ :=
      hr.released_iff hs.settled hs.supplied hsup hadm ho hcov hpos
    exact (hflag hp hpa).trans hiff
  cases enters_of_move? h hs.wired hs.resting with
  | called hcall hh =>
    rw [hcalled hh (admissible_of_call? hc hcall), entries_of_call? hcall]
    simp only [List.mem_singleton, exists_eq_left, and_congr_left_iff]
    omega
  | tended hcall hh =>
    rw [entries_of_call?_none hcall]
    refine iff_of_false ?_ (by simp)
    generalize hk : t.heap = k at hh
    cases hh with
    | nothing =>
      rw [← hk, hflag (hk ▸ ho) hcov]
      omega
    | inhibited => simp [← hk, hcalled hk trivial, Exchange.unretains, Heap.exchange]
    | allowed => simp [← hk, hcalled hk trivial, Exchange.unretains, Heap.exchange]

/-- In every run in which no object is retained more often than a word counts, the ledger is
right: an object has been retained as often as it is, and as often as a retain of it was given
back, by whichever of its addresses and wherever it was. So an address in it ceases to be
retained when its last retain is given back. And if owners do not give back more than they
took, a task that has to give its address back does so without a fault, and gives back what it
took. -/
theorem Logs.no_retain_is_lost {placement : Nat → Nat} {config : Heap.Config}
    {refusal : TaskSettings → Option String} {threads : List String}
    (h : Logs (start (.create placement config) refusal threads) es log t) (hfew : Few log) :
    (∀ id o, t.heap.object? id = some o → o.retains + returned log id = taken log id) ∧
    (∀ id o a, t.heap.object? id = some o → o.Covers a →
      ((Call.isRetained a).run.run t.heap).answer =
        .ok (.flag (decide (returned log id < taken log id)))) ∧
    (∀ id o a m u, t.heap.object? id = some o → o.Covers a → 0 < o.retains →
      t.move? m = some u → m.Admissible t.heap → u.heap.Supplied →
        (((Call.isRetained a).run.run u.heap).answer = .ok (.flag false) ↔
          taken log id = returned log id + 1 ∧ ∃ e ∈ t.entries m, e.unretains id = true)) ∧
    (Matched es → ∀ j v, t.shared.tasks[j]? = some v → v.phase = .unretain →
      ∃ id, Undoes (start (.create placement config) refusal threads) log t j v.address id) := by
  have hs₀ := sound_start placement config refusal threads
  have ht := h.runs.sound hs₀
  have hb := h.balanced hs₀ (Heap.balanced_create placement config) hfew
  refine ⟨hb, ?_, ?_, ?_⟩
  · intro id o a ho hcov
    exact hb.isRetained ht.settled ht.supplied ho hcov
  · intro id o a m u ho hcov hpos hmove hc hsup
    exact released_iff ht hb hmove hc hsup ho hcov hpos
  · intro hm j v hv hp
    exact h.undoes hs₀ (accounted_start placement config refusal threads) hm rfl hv hp

/-- An object is retained by one of its addresses for an owner and by another one for a guard.
It is not rooted any longer when there is a collection, and then the guard is released. -/
def retainTwice : List Move :=
  [.ask 0 (.call (.allocate 24)), .ask 0 (.guard 0x100005 {}), .go (.owner 0), .go (.task 0),
    .go (.task 0), .go (.task 0), .go (.task 0), .go (.owner 0), .go (.owner 0),
    .ask 0 (.call (.retain 0x100010)), .ask 0 (.call (.unroot 0)), .ask 0 (.call .collect),
    .ask 0 (.release 0 false), .go (.owner 0), .go (.owner 0), .go (.task 0)]

theorem retained_twice :
    ∃ es log t, Logs single es log t ∧ t.heap.collections = 1 ∧
      taken log 0 = returned log 0 + 2 ∧ ∃ id, Undoes single log t 0 0x100005 id := by
  have hrun : ((single.moves? retainTwice).map fun run =>
      (run.1.map Exchange.call, run.2.heap.collections, run.2.shared.tasks[0]?.map fun v =>
        (v.address, v.phase), (run.2.heap.object? 0).map Object.retains)) =
      some ([.allocate 24, .retain 0x100010, .unroot 0, .collect], 1,
        some (0x100005, .unretain), some 2) := by decide +kernel
  obtain ⟨⟨es, t⟩, hmoves, heq⟩ := Option.map_eq_some_iff.1 hrun
  obtain ⟨hcalls, hcollections, htask, hretains⟩ :
      es.map Exchange.call = _ ∧ t.heap.collections = _ ∧ _ = _ ∧ _ = _ := by
    simpa only [Prod.mk.injEq] using heq
  obtain ⟨v, hv, hvp⟩ := Option.map_eq_some_iff.1 htask
  obtain ⟨hva, hphase⟩ := Prod.mk.inj hvp
  obtain ⟨o, ho, hor⟩ := Option.map_eq_some_iff.1 hretains
  obtain ⟨log, hlog, hlen⟩ := Logs.of_moves? hmoves
  have hshort : log.length < Word.limit := Nat.lt_of_le_of_lt hlen (by decide)
  have hm : Matched es := Exchange.matched_of_calls (by simp [hcalls])
  obtain ⟨hbook, -, -, hundoes⟩ := Logs.no_retain_is_lost hlog (Exchange.few_of_length hshort)
  have hcount := hbook 0 o ho
  obtain ⟨id, hid⟩ := hundoes hm 0 v hv hphase
  rw [hva] at hid
  exact ⟨es, log, t, hlog, hcollections, by omega, id, hid⟩

end Session

end PinnedHeap
