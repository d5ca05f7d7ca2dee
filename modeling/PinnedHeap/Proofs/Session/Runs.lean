import PinnedHeap.Proofs.Heap.Accounts
import PinnedHeap.Proofs.Session.Wiring

/-!
# Runs of a session

A run is any number of moves in any order. It is labelled with the exchanges
between the owners and the heap; what tasks do with the heap is not seen.
`Session.Sound` collects what holds in every session that a run leads to.
-/

namespace PinnedHeap

open Heap (Call Answer)

/-- The call that an owner is asked for. -/
def Move.call? : Move → Option Call
  | .ask _ (.call c) => some c
  | _ => none

namespace Session

variable {s t u : Session} {m : Move}

/-- Owners and tasks act on the heap of the session. -/
structure Wired (s : Session) : Prop where
  owner : ∀ w ∈ s.owners, w.Wired
  task : ∀ v ∈ s.shared.tasks, v.manager = .heap .whole

/-- No owner has anything to begin with. -/
def Resting (s : Session) : Prop := ∀ w ∈ s.owners, w.program = []

/-! ## Moves -/

theorem getElem?_told {i : Nat} {w : Owner Heap Answer} (hw : s.owners[i]? = some w)
    (r : Request) :
    (s.told i w r).owners[i]? = some { w with program := r.command :: w.program } :=
  getElem?_set_self_of_some hw _

/-- What a move is made of. -/
theorem move?_cases (h : s.move? m = some t) :
    (∃ i r w, m = .ask i r ∧ s.owners[i]? = some w ∧ w.stage = .idle ∧
        (s.told i w r).Moves (.owner i) t) ∨
      ∃ a, m = .go a ∧ s.Moves a t := by
  cases m with
  | go a => exact .inr ⟨a, rfl, Threads.moves_of_step? h⟩
  | ask i r =>
    simp only [move?, ask] at h
    cases hw : s.owners[i]? with
    | none => simp [hw] at h
    | some w =>
      simp only [hw] at h
      cases hs : w.stage with
      | idle =>
        simp only [hs] at h
        exact .inl ⟨i, r, w, rfl, hw, hs, Threads.moves_of_step? (a := .owner i) h⟩
      | _ => simp [hs] at h

theorem told_orderly {i : Nat} {w : Owner Heap Answer} (hw : s.owners[i]? = some w)
    (hs : s.Orderly) (r : Request) : (s.told i w r).Orderly := by
  have hclaims : (s.told i w r).claims.Perm s.claims := by
    obtain ⟨rest, hbefore, hafter⟩ := flatMap_set Owner.claims hw
    exact (hafter { w with program := r.command :: w.program }).trans hbefore.symm
  refine ⟨hs.coherent, ?_, hclaims.nodup_iff.2 hs.nodup, ?_, ?_⟩
  · intro j v hv
    rcases getElem?_set_eq_some hw hv with ⟨rfl, rfl⟩ | ⟨-, hv⟩
    · have hold := hs.owner j w hw
      exact ⟨hold.guard, hold.slot, hold.stage⟩
    · exact hs.owner j v hv
  · intro j hj
    exact hs.armed j (hclaims.mem_iff.1 hj)
  · intro j v hv ha
    obtain ⟨k, x, a, cleanup, hx, hstage⟩ := hs.awaited j v hv ha
    by_cases hk : i = k
    · subst hk
      rw [hw] at hx
      cases hx
      exact ⟨i, _, a, cleanup, getElem?_told hw r, hstage⟩
    · exact ⟨k, x, a, cleanup, by rw [told, List.getElem?_set_ne hk, hx], hstage⟩

theorem told_wired {i : Nat} {w : Owner Heap Answer} (hw : s.owners[i]? = some w)
    (hs : s.Wired) (r : Request) : (s.told i w r).Wired := by
  refine ⟨?_, hs.task⟩
  intro v hv
  rcases List.mem_or_eq_of_mem_set hv with hv | rfl
  · exact hs.owner v hv
  · have hold := hs.owner w (List.mem_of_getElem? hw)
    refine ⟨?_, hold.stage⟩
    intro c hc
    rcases List.mem_cons.1 hc with rfl | hc
    · exact ⟨r, rfl⟩
    · exact hold.program c hc

theorem wired_of_moves {a : Actor} (h : s.Moves a t) (hs : s.Wired) : t.Wired := by
  -- a task that is told to stop keeps its manager
  have htold : ∀ {i : Nat} {v : Task Heap}, v ∈ (s.shared.tellTask i).tasks →
      v.manager = .heap .whole := by
    intro i v hv
    obtain ⟨n, hn⟩ := List.mem_iff_getElem?.1 hv
    rcases Shared.tellTask_cases hn with hn | ⟨x, hx, rfl⟩
    · exact hs.task v (List.mem_of_getElem? hn)
    · exact hs.task x (List.mem_of_getElem? hx)
  cases h with
  | @owner i w w' p ns hw h =>
    have hold := hs.owner w (List.mem_of_getElem? hw)
    refine ⟨?_, ?_⟩
    · intro v hv
      rcases List.mem_or_eq_of_mem_set hv with hv | rfl
      · exact hs.owner v hv
      · exact h.wired hold
    · intro v hv
      have hv : v ∈ p.tasks := hv
      cases h with
      | launch hstage hr =>
        rcases List.mem_append.1 hv with hv | hv
        · exact hs.task v hv
        · rw [List.mem_singleton.1 hv]
          have hwired := hold.stage
          rw [hstage] at hwired
          exact hwired.1
      | drop hstage ha ht => exact htold hv
      | tell hstage hg ht => exact htold hv
      | _ => exact hs.task v hv
  | @task i x x' p ns hx h =>
    refine ⟨hs.owner, ?_⟩
    intro v hv
    obtain ⟨n, hn⟩ := List.mem_iff_getElem?.1 hv
    rcases h.task_cases hx hn with ⟨rfl, rfl⟩ | ⟨-, hn⟩
    · rw [h.continues.manager]
      exact hs.task x (List.mem_of_getElem? hx)
    · exact hs.task v (List.mem_of_getElem? hn)

/-- What an owner is told to do, it begins with at once. -/
theorem resting_of_move? (h : s.move? m = some t) (hs : s.Resting) : t.Resting := by
  rcases move?_cases h with ⟨i, r, w, rfl, hw, hstage, hmove⟩ | ⟨a, rfl, hmove⟩
  · cases hmove with
    | owner hw' hstep =>
      rw [getElem?_told hw] at hw'
      cases hw'
      intro v hv
      rw [told, List.set_set] at hv
      rcases List.mem_or_eq_of_mem_set hv with hv | rfl
      · exact hs v hv
      · rcases hstep.program_cases with ⟨-, c, hp⟩ | ⟨hne, -⟩
        · rw [hs w (List.mem_of_getElem? hw)] at hp
          exact (List.cons.inj hp).2.symm
        · exact absurd hstage hne
  · cases hmove with
    | @owner i w w' p ns hw hstep =>
      intro v hv
      rcases List.mem_or_eq_of_mem_set hv with hv | rfl
      · exact hs v hv
      · have hnil := hs w (List.mem_of_getElem? hw)
        rcases hstep.program_cases with ⟨-, c, hp⟩ | ⟨-, hp⟩
        · rw [hnil] at hp
          cases hp
        · exact hp.trans hnil
    | task hx hstep => exact hs

/-- No owner has a call to begin with. -/
def Uncalled (s : Session) : Prop := ∀ w ∈ s.owners, ∀ c, (Request.call c).command ∉ w.program

theorem Resting.uncalled (hs : s.Resting) : s.Uncalled := by
  intro w hw c
  rw [hs w hw]
  exact List.not_mem_nil

theorem Resting.uncalled_told (hs : s.Resting) {i : Nat} {w : Owner Heap Answer} {r : Request}
    (hw : s.owners[i]? = some w) (hr : ∀ c, r ≠ .call c) : (s.told i w r).Uncalled := by
  intro v hv c hc
  rcases List.mem_or_eq_of_mem_set hv with hv | rfl
  · exact hs.uncalled v hv c hc
  · rcases List.mem_cons.1 hc with hc | hc
    · cases r with
      | call d => exact hr d rfl
      | _ => cases hc
    · exact hs.uncalled w (List.mem_of_getElem? hw) c hc

/-! ## What a move does to the heap -/

/-- What a move does to the heap, and to what is held. -/
inductive Touches (s : Session) (m : Move) (t : Session) : Prop where
  | nothing (hm : m.call? = none) (hh : t.heap = s.heap)
      (hp : t.shared.held.Perm s.shared.held)
  | asked {c : Call} (hm : m.call? = some c) (hh : t.heap = (c.run.run s.heap).state)
      (hp : t.shared.held.Perm s.shared.held)
  | served {c : Call} (hm : m.call? = none) (hh : t.heap = (c.run.run s.heap).state)
      (hc : Serves s.shared.held t.shared.held c (c.run.run s.heap).answer)

/-- Whoever is not asked for a call makes one only in the service of guards. -/
theorem touches_of_moves {a : Actor} (h : s.Moves a t) (hs : s.Wired) (hm : m.call? = none)
    (hnone : s.Uncalled) : Touches s m t := by
  cases h with
  | @owner i w w' p ns hw h =>
    have hmem := List.mem_of_getElem? hw
    have htouches := h.touches (hs.owner w hmem)
    have hheld := h.held
    show Touches s m _
    generalize hk : p.managed = k at htouches
    cases htouches with
    | nothing => exact .nothing hm hk hheld
    | called hc => exact absurd hc (hnone w hmem _)
    | inhibited => exact .served hm hk (.inhibit hheld)
    | allowed => exact .served hm hk (.allow hheld)
  | @task i x x' p ns hx h =>
    have hx' : p.tasks[i]? = some x := h.tasks ▸ hx
    obtain ⟨rest, hbefore, hafter⟩ := Shared.held_modifyTask hx' fun _ => x'
    have hsame : p.held = s.shared.held := by rw [Shared.held, h.tasks, Shared.held]
    rw [hsame] at hbefore
    rcases h.touches (hs.task x (List.mem_of_getElem? hx)) with ⟨hh, heq⟩ | ⟨c, hh, hserves⟩
    · rw [heq] at hafter
      exact .nothing hm hh (hafter.trans hbefore.symm)
    · exact .served hm hh (hserves hbefore hafter)

theorem touches_of_move? (h : s.move? m = some t) (hs : s.Wired) (hr : s.Resting) :
    Touches s m t := by
  rcases move?_cases h with ⟨i, r, w, rfl, hw, hstage, hmove⟩ | ⟨a, rfl, hmove⟩
  swap
  · exact touches_of_moves hmove hs rfl hr.uncalled
  have hother : (∀ c, r ≠ .call c) → Touches s (.ask i r) t := by
    intro hne
    have hm : Move.call? (.ask i r) = none := by
      cases r with
      | call c => exact absurd rfl (hne c)
      | _ => rfl
    have htouches : Touches (s.told i w r) (.ask i r) t :=
      touches_of_moves hmove (told_wired hw hs r) hm (hr.uncalled_told hw hne)
    cases htouches with
    | nothing hm hh hp => exact .nothing hm hh hp
    | asked hm' hh hp =>
      rw [hm] at hm'
      cases hm'
    | served hm hh hc => exact .served hm hh hc
  cases r with
  | call c =>
    cases hmove with
    | owner hw' hstep =>
      rw [getElem?_told hw] at hw'
      cases hw'
      exact .asked rfl (hstep.act_eq hstage rfl).2 hstep.held
  | _ => exact hother (by simp)

/-! ## The invariant -/

/-- What holds in a session between two moves. -/
structure Sound (s : Session) : Prop where
  wired : s.Wired
  resting : s.Resting
  orderly : s.Orderly
  settled : s.heap.Settled
  supplied : s.heap.Supplied

theorem sound_start (placement : Nat → Nat) (config : Heap.Config)
    (refusal : TaskSettings → Option String) (threads : List String) :
    (start (.create placement config) refusal threads).Sound where
  wired := by
    refine ⟨?_, fun v hv => absurd hv List.not_mem_nil⟩
    intro w hw
    obtain ⟨name, -, rfl⟩ := List.mem_map.1 hw
    exact ⟨fun c hc => absurd hc List.not_mem_nil, trivial⟩
  resting := by
    intro w hw
    obtain ⟨name, -, rfl⟩ := List.mem_map.1 hw
    rfl
  orderly := by
    refine Threads.Fresh.orderly ⟨rfl, ?_⟩
    intro i w hw
    obtain ⟨name, -, rfl⟩ := List.mem_map.1 (List.mem_of_getElem? hw)
    exact ⟨rfl, rfl⟩
  settled := Heap.settled_create placement config
  supplied := Heap.supplied_create placement config

theorem orderly_of_move? (h : s.move? m = some t) (hs : s.Orderly) : t.Orderly := by
  rcases move?_cases h with ⟨i, r, w, rfl, hw, -, hmove⟩ | ⟨a, rfl, hmove⟩
  · exact hmove.orderly (told_orderly hw hs r)
  · exact hmove.orderly hs

theorem wired_of_move? (h : s.move? m = some t) (hs : s.Wired) : t.Wired := by
  rcases move?_cases h with ⟨i, r, w, rfl, hw, -, hmove⟩ | ⟨a, rfl, hmove⟩
  · exact wired_of_moves hmove (told_wired hw hs r)
  · exact wired_of_moves hmove hs

/-- Tasks go on as the same tasks. -/
theorem grows_of_move? (h : s.move? m = some t) : Shared.Grows s.shared t.shared := by
  rcases move?_cases h with ⟨i, r, w, rfl, hw, -, hmove⟩ | ⟨a, rfl, hmove⟩
  · exact hmove.grows
  · exact hmove.grows

/-- A move leaves the heap alone, or is a call that is answered as calls are. -/
theorem Sound.responds (hs : s.Sound) {c : Call} (hh : t.heap = (c.run.run s.heap).state)
    (hsup : t.heap.Supplied) : Heap.Responds s.heap c (c.run.run s.heap).answer t.heap := by
  rw [hh] at hsup ⊢
  exact Heap.conforms hs.settled hs.supplied c hsup

theorem Sound.move? (hs : s.Sound) (h : s.move? m = some t) (hsup : t.heap.Supplied) :
    t.Sound where
  wired := wired_of_move? h hs.wired
  resting := resting_of_move? h hs.resting
  orderly := orderly_of_move? h hs.orderly
  settled := by
    cases touches_of_move? h hs.wired hs.resting with
    | nothing hm hh hp =>
      rw [hh]
      exact hs.settled
    | asked hm hh hp => exact (hs.responds hh hsup).settled hs.settled hsup
    | served hm hh hc => exact (hs.responds hh hsup).settled hs.settled hsup
  supplied := hsup

end Session

/-! ## Runs -/

/-- What owners and heap say to each other in a move. -/
def Move.exchanges (h : Heap) (m : Move) : List Exchange := (m.call?.map h.exchange).toList

/-- What comes from outside goes to the bytes of an object. -/
def Move.Admissible (h : Heap) (m : Move) : Prop := ∀ c ∈ m.call?, c.Admissible h

instance (h : Heap) (m : Move) : Decidable (m.Admissible h) :=
  inferInstanceAs (Decidable (∀ c ∈ m.call?, c.Admissible h))

namespace Session

variable {s t u : Session} {m : Move} {es fs : List Exchange}

theorem exchanges_of_call?_none (h : Heap) (hm : m.call? = none) : m.exchanges h = [] := by
  rw [Move.exchanges, hm]
  rfl

theorem exchanges_of_call? (h : Heap) {c : Call} (hm : m.call? = some c) :
    m.exchanges h = [h.exchange c] := by
  rw [Move.exchanges, hm]
  rfl

/-- `t` comes out of `s` by moves in the course of which owners and heap have exchanged
`es`. The blocks that the heap gets for its buckets are what it relies on. -/
inductive Runs (s : Session) : List Exchange → Session → Prop where
  | refl : Runs s [] s
  | move {es : List Exchange} {t u : Session} (m : Move) (h : Runs s es t)
      (hm : t.move? m = some u) (hc : m.Admissible t.heap) (hs : u.heap.Supplied) :
      Runs s (es ++ m.exchanges t.heap) u

theorem Runs.sound (h : Runs s es t) (hs : s.Sound) : t.Sound := by
  induction h with
  | refl => exact hs
  | move m h hm hc hsup ih => exact ih.move? hm hsup

theorem Runs.grows (h : Runs s es t) : Shared.Grows s.shared t.shared := by
  induction h with
  | refl => exact .of_eq rfl
  | move m h hm hc hsup ih => exact ih.trans (grows_of_move? hm)

theorem Runs.trans (h : Runs s es t) (h' : Runs t fs u) : Runs s (es ++ fs) u := by
  induction h' with
  | refl =>
    rw [List.append_nil]
    exact h
  | move m h' hm hc hsup ih =>
    rw [← List.append_assoc]
    exact ih.move m hm hc hsup

/-- Lets moves happen one after the other, as long as that makes a run, and collects the
exchanges. -/
def moves? (s : Session) : List Move → Option (List Exchange × Session)
  | [] => some ([], s)
  | m :: ms => do
    let t ← s.move? m
    guard (m.Admissible s.heap ∧ t.heap.Supplied)
    let (es, u) ← t.moves? ms
    return (m.exchanges s.heap ++ es, u)

theorem Runs.of_moves? {ms : List Move} (h : s.moves? ms = some (es, t)) : Runs s es t := by
  induction ms generalizing s es with
  | nil =>
    cases h
    exact .refl
  | cons m ms ih =>
    simp only [moves?, Option.bind_eq_bind, Option.bind_eq_some_iff, Option.guard_eq_some'] at h
    obtain ⟨u, hu, -, ⟨hc, hsup⟩, ⟨fs, v⟩, hrest, heq⟩ := h
    cases heq
    exact (Runs.refl.move m hu hc hsup).trans (ih hrest)

/-- One owner and a heap with buckets far apart. -/
def single : Session :=
  start (.create (Heap.spaced 0x100000 0x100000) {}) Shared.standardRefusal ["main"]

end Session

end PinnedHeap
