import PinnedHeap.Guard.Session
import PinnedHeap.Heap.Stats
import PinnedHeap.Proofs.Placement.Spots

/-!
# Where buckets lie does not show

An errand is one thing that an owner is told to do, with every address named by
what lies there. The same errands, run under two placements of the buckets, are
the same run: `Placements.placement_does_not_show`.
-/

namespace PinnedHeap

open Heap (Call Answer Placements)

/-- Is an address of memory named in the call? -/
def Heap.Call.isRaw : Call → Bool
  | retain _ | unretain _ | isRetained _ | poke _ _ => true
  | _ => false

/-- A manager to which it is all the same where buckets lie. -/
structure Steward where
  manager : Manager Heap
  fair : ∀ w : Placements, w.Fair manager

namespace Steward

/-- The heap itself. -/
def heap : Steward := ⟨.heap .whole, Placements.fair_heap⟩

/-- The manager of memory that never moves. -/
def unmanaged : Steward := ⟨.unmanaged, Placements.fair_unmanaged⟩

end Steward

/-- One thing that an owner is told to do. -/
inductive Errand where
  /-- A call in which no address is named. -/
  | call (c : Call) (h : c.isRaw = false)
  /-- Holds the object at a spot. -/
  | retain (s : Spot)
  /-- Gives a retain back. -/
  | unretain (s : Spot)
  /-- Asks whether the object at a spot is held. -/
  | isRetained (s : Spot)
  /-- Overwrites memory of one bucket from outside. -/
  | poke (s : Spot) (bytes : List UInt8)
  /-- Lists the heap in the log. -/
  | list
  /-- Makes a guard of the buffer with this id. -/
  | pin (id : Nat) (settings : TaskSettings)
  /-- Makes a guard of the address of a spot. -/
  | guard (s : Spot) (settings : TaskSettings) (steward : Steward)
  /-- Stores a guard. -/
  | store (guard : Nat) (slot : Slot)
  /-- Releases a guard. -/
  | release (guard : Nat) (unwinding : Bool)

namespace Errand

/-- The command that the errand is at this moment, if there is an address where it says. -/
def command? (x : Holdings Heap) : Errand → Option (Command Heap Answer)
  | call c _ => some (.act c.run)
  | retain s => (s.resolve? x).map fun a => .act (Call.retain a).run
  | unretain s => (s.resolve? x).map fun a => .act (Call.unretain a).run
  | isRetained s => (s.resolve? x).map fun a => .act (Call.isRetained a).run
  | poke s bytes => (s.range? x bytes.length).map fun a => .act (Call.poke a bytes).run
  | list => some (.act do
      Heap.list
      return .done)
  | pin id settings => some (Request.pin id settings).command
  | guard s settings steward =>
    (s.resolve? x).map fun a => .pin settings steward.manager (pure a) (pure ())
  | store k slot => some (.store k slot)
  | release k unwinding => some (.release k unwinding)

/-- Runs the errand. One that leads nowhere is not begun. -/
def run (owner : String) (e : Errand) : Action Entry (Holdings Heap) (Option (Result Answer)) := do
  let x ← Action.read
  match e.command? x with
  | none => return none
  | some c => return some (← c.run owner)

/-- Runs errands one after the other, each in the name of a thread. -/
def runAll : List (String × Errand) →
    Action Entry (Holdings Heap) (List (Option (Result Answer)))
  | [] => return []
  | (owner, e) :: es => do
    let r ← e.run owner
    let rs ← runAll es
    return r :: rs

/-- Nothing has been done. -/
def start (placement : Nat → Nat) (config : Heap.Config) (refusal : TaskSettings → Option String) :
    Holdings Heap :=
  ([], { Shared.start (Heap.create placement config) with refusal })

/-- What the errands leave behind that are run under a placement. -/
def outcome (placement : Nat → Nat) (config : Heap.Config)
    (refusal : TaskSettings → Option String) (es : List (String × Errand)) :
    Outcome Entry (Holdings Heap) (List (Option (Result Answer))) :=
  (runAll es).run (start placement config refusal)

end Errand

/-- The sizes of the buckets that were created, in their order. -/
def createdSizes (log : List Entry) : List Nat := log.filterMap fun e => e.notice.created?

/-! ## What is the same -/

/-- The second heap is the first one with other addresses. -/
structure SameHeap (f : Nat → Nat) (h k : Heap) : Prop where
  stats : k.stats = h.stats
  wants : k.wantsCollection = h.wantsCollection
  inhibitors : k.inhibitors = h.inhibitors
  created : k.created = h.created
  buckets : k.buckets = h.buckets.map (Bucket.readdress f)
  spare : k.spare = h.spare.map (Bucket.readdress f)
  objects : k.objects = h.objects.map (Option.map (Object.readdress f))
  vacant : k.vacant = h.vacant
  index : k.index.entries.Perm (h.index.entries.map fun e => (f e.1, e.2))
  /-- The objects hold the same bytes. -/
  content : ∀ id o, h.object? id = some o →
    k.memory.read (f o.address) o.len = h.memory.read o.address o.len
  /-- So do the buckets, from end to end. -/
  bytes : ∀ b ∈ h.allBuckets,
    k.memory.read (f b.start) b.capacity = h.memory.read b.start b.capacity
  /-- An address and its counterpart are in the same bucket, and as far from its start. -/
  located : ∀ a number offset, h.locate? a = some (number, offset) →
    k.locate? (f a) = some (number, offset)

/-- The second run is the first one with other addresses. -/
structure SameRun (f : Nat → Nat)
    (o o' : Outcome Entry (Holdings Heap) (List (Option (Result Answer)))) : Prop where
  results : ∃ rs, o.answer = .ok rs ∧ o'.answer = .ok (rs.map (Option.map (Result.readdress f)))
  log : SameLog (Entry.readdress f) Entry.isRow o.notices o'.notices
  guards : o'.state.1 = o.state.1.map (Guard.readdress f)
  states : o'.state.1.map Guard.state = o.state.1.map Guard.state
  cells : ∀ a, o'.state.2.cells.wordAt a = f (o.state.2.cells.wordAt a)
  holding : o'.state.2.holding = o.state.2.holding
  tasks : o'.state.2.tasks = o.state.2.tasks.map (Task.readdress f)
  heap : SameHeap f o.state.2.managed o'.state.2.managed

/-! ## Errands have results -/

/-- The action does not break off. -/
def Action.Ends {ν σ α : Type} (x : Action ν σ α) : Prop := ∀ s, ∃ a, (x.run s).answer = .ok a

namespace Action.Ends

variable {ν σ α β : Type} {x : Action ν σ α} {f : α → Action ν σ β}

theorem pure (a : α) : (Pure.pure a : Action ν σ α).Ends := fun _ => ⟨a, rfl⟩

theorem read : (Action.read : Action ν σ σ).Ends := fun s => ⟨s, rfl⟩

theorem attempt (x : Action ν σ α) : (Action.attempt x).Ends := fun _ => ⟨_, rfl⟩

theorem bind (hx : x.Ends) (hf : ∀ a, (f a).Ends) : (x >>= f).Ends := by
  intro s
  obtain ⟨a, ha⟩ := hx s
  obtain ⟨b, hb⟩ := hf a (x.run s).state
  have hrun : x.run s = ⟨.ok a, (x.run s).state, (x.run s).notices⟩ := by rw [← ha]
  exact ⟨b, by rw [run_bind_of_ok hrun, hb]⟩

end Action.Ends

/-- Whatever becomes of a command, it has a result. -/
theorem Command.ends_run {σ ρ : Type} (owner : String) (c : Command σ ρ) : (c.run owner).Ends := by
  cases c with
  | act f => exact .bind (.attempt _) fun _ => .pure _
  | store k slot => exact .bind (.attempt _) fun _ => .pure _
  | release k unwinding => exact .bind (.attempt _) fun _ => .pure _
  | pin settings m prepare cleanup =>
    refine .bind (.attempt _) fun r => ?_
    match r with
    | .error e => exact .pure _
    | .ok (.error refusal) => exact .pure _
    | .ok (.ok g) => exact .bind (fun _ => ⟨_, rfl⟩) fun _ => .pure _

namespace Errand

theorem ends_run (owner : String) (e : Errand) : (e.run owner).Ends := by
  refine .bind .read fun x => ?_
  cases e.command? x with
  | none => exact .pure none
  | some c => exact .bind (c.ends_run owner) fun _ => .pure _

theorem ends_runAll (es : List (String × Errand)) : (runAll es).Ends := by
  induction es with
  | nil => exact .pure []
  | cons e es ih => exact .bind (ends_run e.1 e.2) fun _ => .bind ih fun _ => .pure _

end Errand

namespace Heap.Placements

open Comparison

variable {w : Placements} {h k : Heap} {owner : String} {x y : Holdings Heap}

/-! ## One errand -/

/-- The commands have the same result, or there is none. -/
def SameCommand (w : Placements) (owner : String) (x y : Holdings Heap) :
    Option (Command Heap Answer) → Option (Command Heap Answer) → Prop
  | none, none => True
  | some c, some d => w.holdings.Meets w.SameResult x y (c.run owner) (d.run owner)
  | _, _ => False

theorem SameSpot.command {P : Nat → Prop} {r s : Option Nat} {c d : Nat → Command Heap Answer}
    (hrs : w.SameSpot P r s) (h : ∀ a, P a →
      w.holdings.Meets w.SameResult x y ((c a).run owner) ((d (w.carry a)).run owner)) :
    w.SameCommand owner x y (r.map c) (s.map d) := by
  obtain ⟨rfl, hP⟩ := hrs
  cases r with
  | none => trivial
  | some a => exact h a (hP a rfl)

theorem readdress_of_not_raw {f : Nat → Nat} {c : Call} (h : c.isRaw = false) :
    c.readdress f = c := by
  cases c <;> first | rfl | cases h

theorem means_of_not_raw {c : Call} (h : c.isRaw = false) : w.Means c := by
  cases c <;> trivial

/-- An errand is the same command under both placements. -/
theorem sameCommand (hxy : w.holdings.alike x y) (e : Errand) :
    w.SameCommand owner x y (e.command? x) (e.command? y) := by
  have hheap : w.Alike x.2.managed y.2.managed := hxy.2.managed
  cases e with
  | call c hraw =>
    have hcall := meets_call (c := c) hheap (means_of_not_raw hraw)
    rw [readdress_of_not_raw hraw] at hcall
    exact meets_act hxy hcall
  | retain s =>
    exact (sameSpot_resolve? hxy s).command fun a ha =>
      meets_act hxy (meets_call (c := .retain a) hheap ha)
  | unretain s =>
    exact (sameSpot_resolve? hxy s).command fun a ha =>
      meets_act hxy (meets_call (c := .unretain a) hheap ha)
  | isRetained s =>
    exact (sameSpot_resolve? hxy s).command fun a ha =>
      meets_act hxy (meets_call (c := .isRetained a) hheap ha)
  | poke s bytes =>
    exact (sameSpot_range? hxy s bytes.length).command fun a ha =>
      meets_act hxy (meets_call (c := .poke a bytes) hheap ha)
  | list =>
    refine meets_act hxy ((ends_list hheap).bind fun _ _ _ _ _ _ hst => .pure hst rfl)
  | pin id settings =>
    exact meets_pin hxy (fair_heap w) settings (meets_capture hheap id) fun _ _ => ends_allow
  | guard s settings steward =>
    exact (sameSpot_resolve? hxy s).command fun a ha =>
      meets_pin hxy (steward.fair w) settings (.pure hheap ⟨ha, rfl⟩) fun _ _ hst =>
        .pure hst trivial
  | store k slot => exact meets_storeGuard hxy k slot
  | release k unwinding => exact meets_releaseGuard hxy k unwinding

theorem meets_errand (hxy : w.holdings.alike x y) (e : Errand) :
    w.holdings.Meets (fun r s => s = r.map (Result.readdress w.carry)) x y (e.run owner)
      (e.run owner) := by
  refine .read_bind ?_
  have hsame : w.SameCommand owner x y _ _ := sameCommand hxy e
  match e.command? x, e.command? y, hsame with
  | none, none, _ => exact .pure hxy rfl
  | some c, some d, hcd =>
    exact hcd.bind fun r s _ _ _ hrs hxy => .pure hxy (by rw [hrs]; rfl)

theorem meets_errands (hxy : w.holdings.alike x y) (es : List (String × Errand)) :
    w.holdings.Meets (fun rs ss => ss = rs.map (Option.map (Result.readdress w.carry))) x y
      (Errand.runAll es) (Errand.runAll es) := by
  induction es generalizing x y with
  | nil => exact .pure hxy rfl
  | cons e es ih =>
    refine (meets_errand hxy e.2).bind fun r s x y _ hrs hxy => ?_
    refine (ih hxy).bind fun rs ss x y _ hall hxy => .pure hxy ?_
    rw [hrs, hall, List.map_cons]

/-! ## From the start -/

theorem alike_create (w : Placements) (config : Config) :
    w.Alike (create w.here config) (create w.there config) := by
  have ht : w.Tidy (create w.here config) := {
    placement := rfl
    buckets := nofun
    objects := nofun
    sorted := .nil
    indexed := nofun
    vacant := nofun
    nodup := .nil }
  exact ⟨ht, fun _ _ => rfl, ⟨.nil, fun e => ⟨nofun, fun ⟨_, hd, _⟩ => nomatch hd⟩⟩⟩

theorem alike_start (w : Placements) (config : Config) (refusal : TaskSettings → Option String) :
    w.holdings.alike (Errand.start w.here config refusal)
      (Errand.start w.there config refusal) := by
  refine ⟨⟨nofun, rfl⟩, ?_⟩
  exact {
    managed := w.alike_create config
    cells := fun _ => w.carry_zero.symm
    holding := rfl
    tasks := rfl
    known := List.forall_mem_nil _
    refusal := rfl }

theorem stats_image {m : Memory} {x : AddressIndex} : (w.image h m x).stats = h.stats := by
  simp only [stats, length_buckets_image, length_spare_image, existing_image, List.length_map,
    List.filter_map]
  rfl

theorem Alike.sameHeap (hst : w.Alike h k) : SameHeap w.carry h k := by
  obtain @⟨m, x, ht, hm, hx⟩ := hst
  exact {
    stats := stats_image
    wants := rfl
    inhibitors := rfl
    created := rfl
    buckets := rfl
    spare := rfl
    objects := rfl
    vacant := rfl
    index := hx.perm ht.sorted ht.known
    content := fun id o ho => hm.read (ht.objects id o ho).spans_len
    bytes := fun b hb => hm.read (ht.buckets b hb).whole
    located := fun a number offset hloc => by
      obtain ⟨b, hb, -, rfl, hoff⟩ := locate?_eq_some hloc
      have hlies := ht.buckets b hb
      have hknown : w.Known (b.start + offset) := hlies.start ▸ .inside hlies.size hoff
      exact (locate?_image ht hknown).trans hloc }

/-- Where buckets are placed does not show. The same errands under another placement of the
buckets that they create have the same results, write the same log, and leave the same behind:
in all of that, every address has become the one at the same place of the same bucket. The errands
are any, so it is the same after each of them.

Of `w.carry` nothing is known but that it carries the buckets, so there are no other
addresses. -/
theorem placement_does_not_show (w : Placements) (config : Config)
    (refusal : TaskSettings → Option String) (es : List (String × Errand))
    (hsizes : createdSizes (Errand.outcome w.here config refusal es).notices <+: w.sizes) :
    SameRun w.carry (Errand.outcome w.here config refusal es)
      (Errand.outcome w.there config refusal es) := by
  have hstart := w.alike_start config refusal
  obtain ⟨hanswer, ⟨hguards, hshared⟩, hnotices, -⟩ := meets_errands hstart es hsizes
  obtain ⟨rs, hrs⟩ := Errand.ends_runAll es (Errand.start w.here config refusal)
  obtain ⟨ss, hss⟩ := Errand.ends_runAll es (Errand.start w.there config refusal)
  rw [hrs, hss] at hanswer
  exact {
    results := ⟨rs, hrs, hss.trans (congrArg _ hanswer)⟩
    log := hnotices
    guards := hguards.2
    states := hguards.states
    cells := hshared.cells
    holding := hshared.holding
    tasks := hshared.tasks
    heap := hshared.managed.sameHeap }

/-! ## Two buckets that change places -/

/-- Places buckets downwards. -/
def descending (number : Nat) : Nat := 0x90000 - 0x10000 * number

def smallBuckets : Config := { smallestBucket := 64, initialTarget := 64, targetFactor := 2 }

/-- Objects in two buckets, of which one is retained, one pinned by its bucket, and one moved by a
collection. -/
def crossing : List (String × Errand) := [
  ("main", .call (.allocate 8) rfl), ("main", .call (.allocate 64) rfl),
  ("main", .call (.allocate 5) rfl), ("main", .call (.write 0 0 [1, 2, 3]) rfl),
  ("main", .retain (.object 1 63)), ("main", .guard (.bucket 0 2) {} .heap),
  ("main", .store 0 ⟨0x2000, by decide, by decide⟩), ("main", .call .collect rfl),
  ("main", .poke (.guard 0 (-2)) [7, 8]), ("main", .call (.read 0) rfl), ("main", .list),
  ("owner", .release 0 false), ("main", .isRetained (.object 0 0)),
  ("main", .isRetained (.object 1 0))]

/-- The objects that an outcome leaves, in the order of their addresses. -/
def idsByAddress (o : Outcome Entry (Holdings Heap) (List (Option (Result Answer)))) : List Nat :=
  o.state.2.managed.index.entries.map Prod.snd

theorem crossing_does_not_show :
    ∃ (h : Roomy [64, 512] (spaced 0x10000 0x10000)) (h' : Roomy [64, 512] descending),
      createdSizes (Errand.outcome (spaced 0x10000 0x10000) smallBuckets (fun _ => none)
        crossing).notices <+: [64, 512] ∧
      idsByAddress (Errand.outcome (spaced 0x10000 0x10000) smallBuckets (fun _ => none)
        crossing) = [0, 2, 1] ∧
      idsByAddress (Errand.outcome descending smallBuckets (fun _ => none) crossing) = [1, 0, 2] ∧
      SameRun (between h h').carry
        (Errand.outcome (spaced 0x10000 0x10000) smallBuckets (fun _ => none) crossing)
        (Errand.outcome descending smallBuckets (fun _ => none) crossing) := by
  have h : Roomy [64, 512] (spaced 0x10000 0x10000) := by decide +kernel
  have h' : Roomy [64, 512] descending := by decide +kernel
  have hsizes : createdSizes (Errand.outcome (spaced 0x10000 0x10000) smallBuckets (fun _ => none)
      crossing).notices <+: [64, 512] := by decide +kernel
  refine ⟨h, h', hsizes, by decide +kernel, by decide +kernel, ?_⟩
  exact placement_does_not_show (between h h') smallBuckets _ crossing hsizes

end Heap.Placements

end PinnedHeap
