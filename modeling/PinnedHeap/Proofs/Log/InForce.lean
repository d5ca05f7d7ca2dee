import Mathlib.Data.List.TakeWhile
import PinnedHeap.Guard.Command
import PinnedHeap.Log.Logger

/-!
# The threshold in force

Three things set the threshold of a process: what is standard, the
environment, when the logger is set up, and whoever calls for another one.
Since the logger sets itself up when it is first used, the environment has its
say at that moment, also against a threshold that was called for before.

`inForce` is the threshold that events meet, and `calledFor` the one that they
would meet if nothing but a call could undo a call. The two differ exactly
where the environment has `Overridden` a call: `Lives.threshold_in_force`.
-/

namespace PinnedHeap

namespace Log

/-! ## What bears on the threshold -/

/-- Something in the history of a process that bears on its threshold. -/
inductive Mark where
  /-- A threshold was called for. -/
  | set (threshold : Nat)
  /-- The logger was used, or set up without being used. -/
  | used
  deriving DecidableEq, Repr

/-- The threshold that is called for. -/
def Mark.threshold? : Mark → Option Nat
  | set threshold => some threshold
  | used => none

/-- The threshold that was called for last. -/
def lastSet? (ms : List Mark) : Option Nat := (ms.filterMap Mark.threshold?).getLast?

/-- The history from the first use of the logger on. -/
def sinceUse (ms : List Mark) : List Mark := ms.dropWhile (· ≠ .used)

/-- The threshold that an event meets after a history: what was called for last since the logger
was first used; else what the environment names; else what was called for before. -/
def inForce (environment : Option String) (ms : List Mark) : Nat :=
  (lastSet? (sinceUse ms)).getD
    ((environment.bind Threshold.parse?).getD ((lastSet? ms).getD Threshold.standard))

/-- The threshold that was called for last; else what the environment names. -/
def calledFor (environment : Option String) (ms : List Mark) : Nat :=
  (lastSet? ms).getD ((environment.bind Threshold.parse?).getD Threshold.standard)

/-- No threshold was called for since the logger was first used, one was before, and the
environment names another one. -/
def Overridden (environment : Option String) (ms : List Mark) : Prop :=
  lastSet? (sinceUse ms) = none ∧
    ∃ m n, lastSet? ms = some m ∧ environment.bind Threshold.parse? = some n ∧ m ≠ n

variable {environment : Option String} {ms ns : List Mark} {l : Logger}

@[simp] theorem lastSet?_concat_set (ms : List Mark) (n : Nat) :
    lastSet? (ms ++ [.set n]) = some n := by
  simp [lastSet?, Mark.threshold?]

@[simp] theorem lastSet?_concat_used (ms : List Mark) : lastSet? (ms ++ [.used]) = lastSet? ms := by
  simp [lastSet?, Mark.threshold?]

theorem sinceUse_eq_nil : sinceUse ms = [] ↔ Mark.used ∉ ms := by
  rw [sinceUse, List.dropWhile_eq_nil_iff]
  constructor
  · intro hall hmem
    simpa using hall _ hmem
  · intro hmem m hm
    refine decide_eq_true ?_
    rintro rfl
    exact hmem hm

theorem sinceUse_concat (hu : Mark.used ∈ ms) (m : Mark) :
    sinceUse (ms ++ [m]) = sinceUse ms ++ [m] := by
  have hne : sinceUse ms ≠ [] := fun hnil => sinceUse_eq_nil.1 hnil hu
  unfold sinceUse at hne ⊢
  rw [List.dropWhile_append, if_neg (by simpa using hne)]

theorem sinceUse_concat_used (hu : Mark.used ∉ ms) : sinceUse (ms ++ [.used]) = [.used] := by
  have hnil := sinceUse_eq_nil.2 hu
  unfold sinceUse at hnil ⊢
  rw [List.dropWhile_append, hnil]
  rfl

/-- What was called for last since some moment was called for last. -/
theorem lastSet?_of_sinceUse {n : Nat} (h : lastSet? (sinceUse ms) = some n) :
    lastSet? ms = some n := by
  have hsplit : ms = ms.takeWhile (· ≠ .used) ++ sinceUse ms := List.takeWhile_append_dropWhile.symm
  unfold lastSet? at h ⊢
  rw [hsplit, List.filterMap_append, List.getLast?_append, h]
  rfl

theorem inForce_concat_set (hu : Mark.used ∈ ms) (n : Nat) :
    inForce environment (ms ++ [.set n]) = n := by
  rw [inForce, sinceUse_concat hu, lastSet?_concat_set]
  rfl

/-- The first use settles the threshold; a later one leaves it alone. -/
theorem inForce_concat_used (environment : Option String) (ms : List Mark) :
    inForce environment (ms ++ [.used]) = inForce environment ms := by
  by_cases hu : Mark.used ∈ ms
  · rw [inForce, inForce, sinceUse_concat hu, lastSet?_concat_used, lastSet?_concat_used]
  · rw [inForce, inForce, sinceUse_concat_used hu, sinceUse_eq_nil.2 hu, lastSet?_concat_used]
    rfl

/-- The threshold in force is the one that was called for, unless the environment has overridden
it. -/
theorem inForce_eq_calledFor (environment : Option String) (ms : List Mark) :
    inForce environment ms = calledFor environment ms ↔ ¬ Overridden environment ms := by
  cases hsince : lastSet? (sinceUse ms) with
  | some n =>
    refine iff_of_true ?_ fun hover => ?_
    · rw [inForce, calledFor, hsince, lastSet?_of_sinceUse hsince]
      rfl
    · rw [Overridden, hsince] at hover
      cases hover.1
  | none =>
    cases hlast : lastSet? ms <;> cases henv : environment.bind Threshold.parse? <;>
      simp [inForce, calledFor, Overridden, hsince, hlast, henv, eq_comm]

/-! ## The logger -/

namespace Logger

/-- The logger after something that bears on the threshold. -/
def act (l : Logger) : Mark → Logger
  | .set n => l.setThreshold n
  | .used => l.setUp

/-- The logger after a history. -/
structure Marked (environment : Option String) (ms : List Mark) (l : Logger) : Prop where
  reads : l.environment = environment
  ready : l.ready = true ↔ Mark.used ∈ ms
  threshold : l.threshold =
    if Mark.used ∈ ms then inForce environment ms else (lastSet? ms).getD Threshold.standard

theorem marked_start (environment : Option String) : Marked environment [] (start environment) where
  reads := rfl
  ready := by simp [start]
  threshold := rfl

theorem threshold_setUp (h : Marked environment ms l) :
    l.setUp.threshold = inForce environment ms := by
  by_cases hu : Mark.used ∈ ms
  · rw [setUp, if_pos (h.ready.2 hu), h.threshold, if_pos hu]
  · rw [setUp, if_neg fun hr => hu (h.ready.1 hr)]
    show l.named?.getD l.threshold = _
    rw [named?, h.reads, h.threshold, if_neg hu, inForce, sinceUse_eq_nil.2 hu]
    rfl

theorem ready_setUp (l : Logger) : l.setUp.ready = true := by
  unfold setUp
  split
  · assumption
  · rfl

theorem setUp_of_ready (h : l.ready = true) : l.setUp = l := if_pos h

theorem environment_setUp (l : Logger) : l.setUp.environment = l.environment := by
  unfold setUp
  split <;> rfl

theorem Marked.act (h : Marked environment ms l) (m : Mark) :
    Marked environment (ms ++ [m]) (l.act m) := by
  cases m with
  | set n =>
    refine ⟨h.reads, ?_, ?_⟩
    · show l.ready = true ↔ _
      simpa using h.ready
    · by_cases hu : Mark.used ∈ ms
      · rw [if_pos (List.mem_append_left _ hu), inForce_concat_set hu]
        rfl
      · rw [if_neg (by simpa using hu), lastSet?_concat_set]
        rfl
  | used =>
    have hmem : Mark.used ∈ ms ++ [.used] := List.mem_append_right _ List.mem_cons_self
    refine ⟨(environment_setUp l).trans h.reads, iff_of_true (ready_setUp l) hmem, ?_⟩
    rw [if_pos hmem, inForce_concat_used]
    exact threshold_setUp h

theorem Marked.foldl (h : Marked environment ms l) (ns : List Mark) :
    Marked environment (ms ++ ns) (ns.foldl Logger.act l) := by
  induction ns generalizing ms l with
  | nil => simpa using h
  | cons m ns ih =>
    rw [List.append_cons]
    exact ih (h.act m)

theorem run_emit {thread : String} {e : Event} {t : Nat} (ht : e.threshold? = .ok (some t)) :
    (emit thread e).run l =
      ⟨.ok (), l.setUp, if t ≤ l.setUp.threshold then [record thread e] else []⟩ := by
  have hp : e.passes l.setUp.threshold = .ok (decide (t ≤ l.setUp.threshold)) := by
    rw [Event.passes, ht]
    rfl
  simp only [emit, Action.run_bind, Action.run_update, Action.run_read, hp, Action.run_ofExcept_ok]
  by_cases hle : t ≤ l.setUp.threshold
  · simp [hle]
  · simp [hle]

theorem state_emit (thread : String) (e : Event) (l : Logger) :
    ((emit thread e).run l).state = l.setUp := by
  simp only [emit, Action.run_bind, Action.run_update, Action.run_read]
  cases e.passes l.setUp.threshold with
  | error f => rfl
  | ok b => cases b <;> rfl

end Logger

end Log

open Log (Logger Mark Record)

/-! ## Notices -/

namespace Notice

/-- The threshold of a notice. -/
def threshold (n : Notice) : Nat :=
  match n.event.threshold? with
  | .ok (some t) => t
  | _ => 0

/-- Every notice has a threshold that a logger takes. -/
theorem threshold?_event (n : Notice) : n.event.threshold? = .ok (some n.threshold) := by
  cases n <;> rfl

end Notice

namespace Entry

/-- The event that is logged for an entry. -/
def logged (e : Entry) : String × Log.Event := (e.thread, e.notice.event)

/-- What is shown of an entry. -/
def record (e : Entry) : Record := Logger.record e.thread e.notice.event

end Entry

/-- Of entries those are shown that have no higher threshold than the one in force. -/
theorem Log.Logger.run_emitAll (l : Logger) (es : List Entry) :
    (emitAll (es.map Entry.logged)).run l =
      ⟨.ok (), if es = [] then l else l.setUp,
        (es.filter fun e => e.notice.threshold ≤ l.setUp.threshold).map Entry.record⟩ := by
  induction es generalizing l with
  | nil => rfl
  | cons e es ih =>
    simp only [List.map_cons, Entry.logged, emitAll, Action.run_bind,
      run_emit e.notice.threshold?_event, ih, setUp_of_ready (ready_setUp l)]
    by_cases hle : e.notice.threshold ≤ l.setUp.threshold
    · simp [hle, Entry.record]
    · simp [hle]

/-! ## What a process does -/

/-- A process: its logger, and what its threads work with. -/
structure Process (σ : Type) where
  logger : Logger
  holdings : Holdings σ

/-- The logger of a process. -/
def Process.loggerPlace {σ : Type} : Place (Process σ) Logger where
  get p := p.logger
  set l p := { p with logger := l }

/-- One thing that a process does. -/
inductive Process.Step (σ ρ : Type) where
  /-- Calls for a threshold. -/
  | setThreshold (threshold : Nat)
  /-- Sets the logger up. -/
  | setUp
  /-- Logs an event. -/
  | emit (thread : String) (event : Log.Event)
  /-- Works on what is managed, or with guards. -/
  | work (owner : String) (c : Command σ ρ)

namespace Process.Step

variable {σ ρ : Type}

/-- What is noticed in the course of a command. -/
def entries (owner : String) (c : Command σ ρ) (p : Process σ) : List Entry :=
  ((c.run owner).run p.holdings).notices

/-- Takes the step. What is noticed in the course of it is logged. -/
def run : Process.Step σ ρ → Action Record (Process σ) Unit
  | setThreshold n => Action.within Process.loggerPlace (Action.update fun l => l.setThreshold n)
  | setUp => Action.within Process.loggerPlace (Action.update Logger.setUp)
  | emit thread event => Action.within Process.loggerPlace (Logger.emit thread event)
  | work owner c => do
    let p ← Action.read
    Action.update fun p => { p with holdings := ((c.run owner).run p.holdings).state }
    Action.within Process.loggerPlace (Logger.emitAll ((entries owner c p).map Entry.logged))

/-- What of the step bears on the threshold. Work does if anything is noticed, shown or not. -/
def marks (p : Process σ) : Process.Step σ ρ → List Mark
  | setThreshold n => [.set n]
  | setUp => [.used]
  | emit _ _ => [.used]
  | work owner c => if entries owner c p = [] then [] else [.used]

theorem run_work (owner : String) (c : Command σ ρ) (p : Process σ) :
    ((work owner c).run).run p =
      ⟨.ok (), ⟨if entries owner c p = [] then p.logger else p.logger.setUp,
          ((c.run owner).run p.holdings).state⟩,
        ((entries owner c p).filter fun e =>
          e.notice.threshold ≤ p.logger.setUp.threshold).map Entry.record⟩ := by
  simp only [run, Action.run_bind, Action.run_read, Action.run_update, Action.run_within]
  have hlog := Logger.run_emitAll p.logger (entries owner c p)
  simp only [Process.loggerPlace, hlog]
  rfl

theorem logger_run (x : Process.Step σ ρ) (p : Process σ) :
    (x.run.run p).state.logger = (x.marks p).foldl Logger.act p.logger := by
  cases x with
  | setThreshold n => rfl
  | setUp => rfl
  | emit thread event => exact Logger.state_emit thread event p.logger
  | work owner c =>
    rw [run_work, marks]
    split <;> rfl

end Process.Step

variable {σ ρ : Type} {environment : Option String} {ms : List Mark} {p : Process σ}

/-- The process has started with this environment, and `ms` is what it has done since that bears
on the threshold, first things first. -/
inductive Lives (ρ : Type) (environment : Option String) : List Mark → Process σ → Prop where
  | start (holdings : Holdings σ) : Lives ρ environment [] ⟨Logger.start environment, holdings⟩
  | step {ms : List Mark} {p : Process σ} (x : Process.Step σ ρ) (hl : Lives ρ environment ms p) :
      Lives ρ environment (ms ++ x.marks p) (x.run.run p).state

namespace Lives

theorem marked (hl : Lives ρ environment ms p) : Logger.Marked environment ms p.logger := by
  induction hl with
  | start holdings => exact Logger.marked_start environment
  | step x hl ih =>
    rw [Process.Step.logger_run]
    exact ih.foldl _

/-- An event is shown exactly if its threshold is no higher than the one in force, be it logged by
the program or noticed in the course of work. The threshold in force is the one that was called
for, unless the environment has overridden it. -/
theorem threshold_in_force (hl : Lives ρ environment ms p) :
    (∀ (thread : String) (e : Log.Event) (t : Nat), e.threshold? = .ok (some t) →
        ((.emit thread e : Process.Step σ ρ).run.run p).notices =
          if t ≤ Log.inForce environment ms then [Logger.record thread e] else []) ∧
      (∀ (owner : String) (c : Command σ ρ),
        ((.work owner c : Process.Step σ ρ).run.run p).notices =
          ((Process.Step.entries owner c p).filter fun e =>
            e.notice.threshold ≤ Log.inForce environment ms).map Entry.record) ∧
      (Log.inForce environment ms = Log.calledFor environment ms ↔
        ¬ Log.Overridden environment ms) := by
  have hlimit := Logger.threshold_setUp hl.marked
  refine ⟨?_, ?_, Log.inForce_eq_calledFor environment ms⟩
  · intro thread e t ht
    rw [Process.Step.run, Action.run_within]
    show ((Logger.emit thread e).run p.logger).notices = _
    rw [Logger.run_emit ht, hlimit]
  · intro owner c
    rw [Process.Step.run_work, hlimit]

/-- A threshold of 1 is called for, and then an event with threshold 2 is logged. It is shown,
because the environment names 5. -/
theorem overridden_threshold_shows_event :
    ∃ (p : Process Unit) (x : Process.Step Unit Unit),
      Lives Unit (some "5") [.set 1] p ∧ Log.Overridden (some "5") [.set 1] ∧
        Log.calledFor (some "5") [.set 1] = 1 ∧
        x = .emit "main" (.plain .error 2 "Not emitted.") ∧
        (x.run.run p).notices = [⟨.error, "main", "Not emitted."⟩] := by
  have hl : Lives Unit (some "5") [.set 1] _ :=
    .step (.setThreshold 1) (.start (([], .start ()) : Holdings Unit))
  have hemit := (threshold_in_force hl).1 "main" (.plain .error 2 "Not emitted.") 2 rfl
  refine ⟨_, _, hl, ⟨rfl, 1, 5, rfl, by decide, by decide⟩, rfl, rfl, hemit.trans ?_⟩
  decide

end Lives

end PinnedHeap
