import PinnedHeap.Proofs.Heap.Handles
import PinnedHeap.Proofs.Session.Runs

/-!
# Holders of buffers

A session asks the heap for things by the ids of objects. Whoever holds buffers
does not: what concerns an object is asked for with a buffer (`Use`), and only
with one that was handed out and has not been given up. `Hands` are the runs of
a session in which owners keep to that, with the buffers that they hold.
-/

namespace PinnedHeap

open Heap (Call Answer)

/-- One thing that the holder of some buffers can ask for. -/
inductive Use where
  | allocate (len : Nat)
  | address (b : Buffer)
  | read (b : Buffer)
  | write (b : Buffer) (offset : Nat) (bytes : List UInt8)
  | drop (b : Buffer)
  | pin (b : Buffer) (settings : TaskSettings)
  | retain (address : Nat)
  | unretain (address : Nat)
  | isRetained (address : Nat)
  | collect
  | collectIfWanted
  | poke (address : Nat) (bytes : List UInt8)
  | guard (address : Nat) (settings : TaskSettings)
  | store (guard : Nat) (slot : Slot)
  | release (guard : Nat) (unwinding : Bool)

namespace Use

/-- The buffer that is asked about. -/
def buffer? : Use → Option Buffer
  | address b | read b | write b _ _ | drop b | pin b _ => some b
  | _ => none

/-- What the owner is asked for. -/
def request : Use → Request
  | allocate len => .call (.allocate len)
  | address b => .call (.addressOf b.id)
  | read b => .call (.read b.id)
  | write b offset bytes => .call (.write b.id offset bytes)
  | drop b => .call (.unroot b.id)
  | pin b settings => .pin b.id settings
  | retain a => .call (.retain a)
  | unretain a => .call (.unretain a)
  | isRetained a => .call (.isRetained a)
  | collect => .call .collect
  | collectIfWanted => .call .collectIfWanted
  | poke a bytes => .call (.poke a bytes)
  | guard a settings => .guard a settings
  | store k slot => .store k slot
  | release k unwinding => .release k unwinding

/-- The buffers that are held afterwards: one more if one is handed out, one less if one
is given up, whatever comes of that. -/
def handles (h : Heap) (bs : List Buffer) : Use → List Buffer
  | allocate len =>
    match ((Call.allocate len).run.run h).answer with
    | .ok (.buffer b) => b :: bs
    | _ => bs
  | drop b => bs.erase b
  | _ => bs

end Use

/-- What happens next among holders of buffers. -/
inductive Deed where
  /-- An owner makes use of what it holds. -/
  | use (owner : Nat) (x : Use)
  /-- An owner or a task goes on. -/
  | go (actor : Actor)

namespace Deed

/-- The move of the session. -/
def move : Deed → Move
  | use i x => .ask i x.request
  | go actor => .go actor

/-- The buffer that is asked about is one of these. -/
def IsAbout (bs : List Buffer) : Deed → Prop
  | use _ x => ∀ b ∈ x.buffer?, b ∈ bs
  | go _ => True

instance (bs : List Buffer) : (d : Deed) → Decidable (d.IsAbout bs)
  | use _ x => inferInstanceAs (Decidable (∀ b ∈ x.buffer?, b ∈ bs))
  | go _ => isTrue trivial

/-- The buffers that are held afterwards. -/
def handles (h : Heap) (bs : List Buffer) : Deed → List Buffer
  | use _ x => x.handles h bs
  | go _ => bs

end Deed

namespace Session

variable {s t u : Session} {bs cs : List Buffer} {es : List Exchange}

/-- `t` comes out of `s`, in which no buffers are held, by deeds of holders of buffers, and
`bs` are the buffers that are held in `t`. -/
inductive Hands (s : Session) : List Buffer → Session → Prop where
  | empty : Hands s [] s
  | deed {bs : List Buffer} {t u : Session} (d : Deed) (h : Hands s bs t) (hd : d.IsAbout bs)
      (hm : t.move? d.move = some u) (hc : d.move.Admissible t.heap) (hs : u.heap.Supplied) :
      Hands s (d.handles t.heap bs) u

theorem Hands.runs (h : Hands s bs t) : ∃ es, Runs s es t := by
  induction h with
  | empty => exact ⟨[], .refl⟩
  | deed d h hd hm hc hs ih =>
    obtain ⟨es, hes⟩ := ih
    exact ⟨_, hes.move d.move hm hc hs⟩

/-- Lets deeds happen one after the other, as long as that is what holders of buffers do. -/
def hands? (s : Session) (bs : List Buffer) : List Deed → Option (List Buffer × Session)
  | [] => some (bs, s)
  | d :: ds => do
    let t ← s.move? d.move
    guard (d.IsAbout bs ∧ d.move.Admissible s.heap ∧ t.heap.Supplied)
    t.hands? (d.handles s.heap bs) ds

theorem Hands.of_hands? (h : Hands s bs t) {ds : List Deed}
    (hu : t.hands? bs ds = some (cs, u)) : Hands s cs u := by
  induction ds generalizing t bs with
  | nil =>
    cases hu
    exact h
  | cons d ds ih =>
    simp only [hands?, Option.bind_eq_bind, Option.bind_eq_some_iff, Option.guard_eq_some'] at hu
    obtain ⟨v, hv, -, ⟨hd, hc, hs⟩, hrest⟩ := hu
    exact ih (h.deed d hd hv hc hs) hrest

/-! ## The buffers and the objects -/

/-- What is called in the service of guards is nothing to the holders of buffers. -/
theorem fits_of_serves {h k : Heap} {held held' : List Nat} {c : Call}
    (hf : h.Fits bs) (hc : Serves held held' c (c.run.run h).answer)
    (hr : Heap.Responds h c (c.run.run h).answer k) (hh : h.Settled) (hsup : k.Supplied) :
    k.Fits bs := by
  refine hf.keep hr hh hsup (hc.admissible h) (fun b _ => hc.unroots b.id) ?_
  intro b hb
  rw [hb] at hr hc
  cases hr.of_buffer
  cases hc

/-- What the owner calls the heap for, by way of its buffers. -/
theorem fits_of_use {h k : Heap} {x : Use} {c : Call} (hf : h.Fits bs)
    (hx : x.request = .call c) (hb : ∀ b ∈ x.buffer?, b ∈ bs) (hc : c.Admissible h)
    (hr : Heap.Responds h c (c.run.run h).answer k) (hh : h.Settled) (hsup : k.Supplied) :
    k.Fits (x.handles h bs) := by
  have hkeep : (∀ len, c ≠ .allocate len) → (∀ id, c ≠ .unroot id) → k.Fits bs := by
    intro hallocate hunroot
    refine hf.keep hr hh hsup hc ?_ ?_
    · intro b hmem
      cases c with
      | unroot id => exact absurd rfl (hunroot id)
      | _ => rfl
    · intro b hans
      rw [hans] at hr
      exact hallocate b.len hr.of_buffer
  cases x with
  | allocate len =>
    cases hx
    simp only [Use.handles]
    split
    · next b hans =>
      rw [hans] at hr
      exact hf.allocate hr hh hsup
    · next hans => exact hf.keep hr hh hsup hc (fun b _ => rfl) hans
  | drop b =>
    cases hx
    exact hf.drop (hb b rfl) hr hh hsup
  | pin b settings => cases hx
  | guard a settings => cases hx
  | store j slot => cases hx
  | release j unwinding => cases hx
  | _ =>
    cases hx
    exact hkeep (by simp) (by simp)

theorem request_of_call? {i : Nat} {r : Request} {c : Call}
    (h : Move.call? (.ask i r) = some c) : r = .call c := by
  cases r with
  | call d =>
    cases h
    rfl
  | _ => cases h

theorem handles_of_call?_none {d : Deed} (h : Heap) (hd : d.move.call? = none) :
    d.handles h bs = bs := by
  cases d with
  | go actor => rfl
  | use i x =>
    cases x with
    | pin b settings => rfl
    | guard a settings => rfl
    | store j slot => rfl
    | release j unwinding => rfl
    | _ => cases hd

theorem fits_of_move? {d : Deed} (hs : s.Sound) (hf : s.heap.Fits bs) (hd : d.IsAbout bs)
    (hm : s.move? d.move = some t) (hc : d.move.Admissible s.heap) (hsup : t.heap.Supplied) :
    t.heap.Fits (d.handles s.heap bs) := by
  cases touches_of_move? hm hs.wired hs.resting with
  | nothing hnone hh hp =>
    rw [handles_of_call?_none _ hnone, hh]
    exact hf
  | @asked c hcall hh hp =>
    cases d with
    | go actor => cases hcall
    | use i x =>
      exact fits_of_use hf (request_of_call? hcall) hd (hc c hcall) (hs.responds hh hsup)
        hs.settled hsup
  | served hnone hh hserves =>
    rw [handles_of_call?_none _ hnone]
    exact fits_of_serves hf hserves (hs.responds hh hsup) hs.settled hsup

section Start

variable {placement : Nat → Nat} {config : Heap.Config} {refusal : TaskSettings → Option String}
  {threads : List String}

theorem Hands.sound (h : Hands (start (.create placement config) refusal threads) bs t) :
    t.Sound := by
  obtain ⟨es, hes⟩ := h.runs
  exact hes.sound (sound_start placement config refusal threads)

theorem Hands.fits (h : Hands (start (.create placement config) refusal threads) bs t) :
    t.heap.Fits bs := by
  induction h with
  | empty => exact Heap.fits_create placement config
  | deed d h hd hm hc hsup ih => exact fits_of_move? h.sound ih hd hm hc hsup

/-- Every buffer that is held is good for something. -/
theorem Hands.usable (h : Hands (start (.create placement config) refusal threads) bs t)
    {b : Buffer} (hb : b ∈ bs) : ∃ o, t.heap.object? b.id = some o ∧ t.heap.Usable b o := by
  obtain ⟨o, ho, -, hlen⟩ := h.fits.named b hb
  exact ⟨o, ho, h.sound.settled.usable h.sound.supplied ho hlen⟩

end Start

/-- Whatever the holders of buffers have done, in whatever order and however far their pins
have come, their buffers and the rooted objects belong together one to one, and every
buffer is good for what it is there for. -/
theorem Hands.buffers_name_their_objects {placement : Nat → Nat} {config : Heap.Config}
    {refusal : TaskSettings → Option String} {threads : List String}
    (h : Hands (start (.create placement config) refusal threads) bs t) :
    t.heap.Fits bs ∧ ∀ b ∈ bs, ∃ o, t.heap.object? b.id = some o ∧ t.heap.Usable b o :=
  ⟨h.fits, fun _ hb => h.usable hb⟩

/-- Two buffers are made and one is given up and reclaimed; a third one gets the same id
while the first one is being pinned, and the task of the pin has retained its object. -/
def recycleAndPin : List Deed :=
  [.use 0 (.allocate 5), .use 0 (.allocate 16), .use 0 (.drop ⟨0, 5⟩), .use 0 .collect,
    .use 0 (.allocate 24), .use 0 (.pin ⟨1, 16⟩ {}), .go (.owner 0), .go (.task 0)]

theorem recycled_id_names_new_object :
    ∃ bs t, Hands single bs t ∧ bs = [⟨0, 24⟩, ⟨1, 16⟩] ∧ t.heap.inhibitors = 1 ∧
      (t.heap.object? 1).map Object.retains = some 1 ∧ t.heap.Fits bs ∧
      ∀ b ∈ bs, ∃ o, t.heap.object? b.id = some o ∧ t.heap.Usable b o := by
  have hrun : (single.hands? [] recycleAndPin).map (fun run =>
      (run.1, run.2.heap.inhibitors, (run.2.heap.object? 1).map Object.retains)) =
        some ([⟨0, 24⟩, ⟨1, 16⟩], 1, some 1) := by decide +kernel
  obtain ⟨⟨bs, t⟩, hdeeds, heq⟩ := Option.map_eq_some_iff.1 hrun
  simp only [Prod.mk.injEq] at heq
  obtain ⟨hbs, hinhibitors, hretains⟩ := heq
  have h := Hands.of_hands? .empty hdeeds
  obtain ⟨hfits, husable⟩ := Hands.buffers_name_their_objects h
  exact ⟨bs, t, h, hbs, hinhibitors, hretains, hfits, husable⟩

end Session

end PinnedHeap
