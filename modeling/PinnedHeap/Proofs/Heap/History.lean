import PinnedHeap.Proofs.Heap.Effects

/-!
# Histories

The heaps that a new heap turns into, call by call, as long as the blocks that
it gets for its buckets are what a heap relies on. All of them are settled. A
`Trail` is such a heap together with the heaps before it.
-/

namespace PinnedHeap.Heap

variable {placement : Nat → Nat} {config : Config} {h k : Heap}

/-- The heap comes out of a new one by calls, some of which may have broken off. -/
inductive Reached (placement : Nat → Nat) (config : Config) : Heap → Prop where
  | create : Reached placement config (create placement config)
  | call {h : Heap} (c : Call) (hr : Reached placement config h)
      (hs : (c.run.run h).state.Supplied) : Reached placement config (c.run.run h).state

theorem supplied_create (placement : Nat → Nat) (config : Config) :
    (create placement config).Supplied where
  blocks := by
    refine ⟨?_, ?_, ?_, List.Pairwise.nil⟩
    · exact fun b hb => absurd hb List.not_mem_nil
    · exact fun b hb => absurd hb List.not_mem_nil
    · exact fun b hb => absurd hb List.not_mem_nil
  owned_lt := Nat.zero_lt_succ _

theorem settled_create (placement : Nat → Nat) (config : Config) :
    (create placement config).Settled where
  sound := {
    bucket := fun b hb => absurd hb List.not_mem_nil
    smallest := fun b hb => absurd hb List.not_mem_nil
    owned := rfl
    object := fun ho => by cases ho
    housed := fun ho => by cases ho
    apart := fun ho => by cases ho
    index_sorted := List.Pairwise.nil
    index_iff := by
      intro a id
      constructor
      · intro hmem
        cases hmem
      · rintro ⟨o, ho, -⟩
        cases ho
    vacant_nodup := List.nodup_nil
    vacant_iff := by
      intro id
      constructor
      · intro hmem
        cases hmem
      · rintro ⟨hlt, -⟩
        cases hlt }
  unmarked := fun ho => by cases ho

theorem Reached.supplied (hr : Reached placement config h) : h.Supplied := by
  cases hr with
  | create => exact supplied_create placement config
  | call c hr hs => exact hs

theorem Reached.settled (hr : Reached placement config h) : h.Settled := by
  induction hr with
  | create => exact settled_create placement config
  | call c hr hs ih => exact Responds.settled (conforms ih hr.supplied c hs) ih hs

/-- Makes calls one after the other, whatever comes of them, as long as the heap is given the
blocks that it relies on. -/
def calls? (h : Heap) : List Call → Option Heap
  | [] => some h
  | c :: cs => if (c.run.run h).state.Supplied then (c.run.run h).state.calls? cs else none

theorem Reached.of_calls? (hr : Reached placement config h) {cs : List Call}
    (hk : h.calls? cs = some k) : Reached placement config k := by
  induction cs generalizing h with
  | nil =>
    cases hk
    exact hr
  | cons c cs ih =>
    rw [calls?] at hk
    split at hk
    · exact ih (hr.call c ‹_›) hk
    · cases hk

/-- The heap comes out of a new one by calls as one that is `Reached` does, and `hs` are the
heaps on the way: the first one is new, and the heap itself comes last and heads the list. -/
inductive Trail (placement : Nat → Nat) (config : Config) : List Heap → Heap → Prop where
  | create :
      Trail placement config [Heap.create placement config] (Heap.create placement config)
  | call {hs : List Heap} {h : Heap} (c : Call) (hr : Trail placement config hs h)
      (hsup : (c.run.run h).state.Supplied) :
      Trail placement config ((c.run.run h).state :: hs) (c.run.run h).state

namespace Trail

variable {hs : List Heap}

theorem reached (hr : Trail placement config hs h) : Reached placement config h := by
  induction hr with
  | create => exact .create
  | call c hr hsup ih => exact ih.call c hsup

theorem of_calls?_length (hr : Trail placement config hs h) {cs : List Call}
    (hk : h.calls? cs = some k) :
    ∃ ks, ks.length = cs.length ∧ Trail placement config (ks ++ hs) k := by
  induction cs generalizing h hs with
  | nil =>
    cases hk
    exact ⟨[], rfl, hr⟩
  | cons c cs ih =>
    rw [calls?] at hk
    split at hk
    · obtain ⟨ks, hlen, hks⟩ := ih (hr.call c ‹_›) hk
      refine ⟨ks ++ [(c.run.run h).state], ?_, by rw [List.append_assoc]; exact hks⟩
      rw [List.length_append, hlen, List.length_singleton, List.length_cons]
    · cases hk

theorem of_calls? (hr : Trail placement config hs h) {cs : List Call}
    (hk : h.calls? cs = some k) : ∃ ks, Trail placement config (ks ++ hs) k := by
  obtain ⟨ks, -, hks⟩ := hr.of_calls?_length hk
  exact ⟨ks, hks⟩

end Trail

end PinnedHeap.Heap
