import PinnedHeap.Proofs.Heap.Settle

/-!
# The fate of the objects

What `SettlesAll` says about single objects. An object that is not decided
about is `Untouched`; one that is meets its `Fate`. Both speak of the bytes of
the object, wherever it lies, and this is where storage that overlaps would
show.
-/

namespace PinnedHeap.Heap

variable {h k l : Heap} {away : List Bucket} {id : Nat} {ids : List Nat} {t t' : Tally}

/-- The bytes of the object with an id, if it exists. -/
def content? (h : Heap) (id : Nat) : Option (List UInt8) :=
  (h.object? id).map fun o => h.memory.read o.address o.len

theorem content?_eq {o : Object} (ho : h.object? id = some o) :
    h.content? id = some (h.memory.read o.address o.len) := by
  rw [content?, ho, Option.map_some]

/-- The object with an id, or the want of one, is the same in both heaps. -/
structure Untouched (h k : Heap) (id : Nat) : Prop where
  object? : k.object? id = h.object? id
  content? : k.content? id = h.content? id

namespace Untouched

theorem refl (h : Heap) (id : Nat) : Untouched h h id := ⟨rfl, rfl⟩

theorem trans (hk : Untouched h k id) (kl : Untouched k l id) : Untouched h l id :=
  ⟨kl.object?.trans hk.object?, kl.content?.trans hk.content?⟩

/-- It is enough that the record is the same and the bytes at its place are. -/
theorem of_read (hobj : k.object? id = h.object? id)
    (hread : ∀ o, h.object? id = some o →
      k.memory.read o.address o.len = h.memory.read o.address o.len) : Untouched h k id := by
  refine ⟨hobj, ?_⟩
  rw [Heap.content?, Heap.content?, hobj]
  cases ho : h.object? id with
  | none => rfl
  | some o => rw [Option.map_some, Option.map_some, hread o ho]

theorem of_memory (hobj : k.object? id = h.object? id) (hmem : k.memory = h.memory) :
    Untouched h k id :=
  of_read hobj fun o _ => by rw [hmem]

end Untouched

/-- What becomes of an object that is decided about. -/
inductive Fate (h k : Heap) (id : Nat) : Prop where
  | vacant (before : h.object? id = none) (after : k.object? id = none)
  | reclaimed {o : Object} (before : h.object? id = some o) (hm : o.marked = false)
      (after : k.object? id = none)
  | kept {o : Object} {a : Nat} (before : h.object? id = some o) (hm : o.marked = true)
      (after : k.object? id = some { o with address := a, marked := false })
      (content : k.content? id = h.content? id)
      (place : a = o.address ↔ o.isRetained = true)
      (house : o.isRetained = false → ∃ b ∈ k.buckets, b.Houses a o.footprint)

/-! ## One decision -/

/-- What was housed in a bucket in use still is. -/
def KeepsHouses (h k : Heap) : Prop :=
  ∀ a n, (∃ b ∈ h.buckets, b.Houses a n) → ∃ b ∈ k.buckets, b.Houses a n

theorem Reserves.keepsHouses {bytes a : Nat} (hr : Reserves h bytes a k) : KeepsHouses h k := by
  obtain ⟨b, others, hs⟩ := hr.slot
  intro a n hin
  obtain ⟨c, hc, hhouse⟩ := hin
  rcases hs.kept c hc with rfl | hc
  · exact ⟨_, hs.inUse, hhouse.bump bytes⟩
  · exact ⟨c, hc, hhouse⟩

theorem Settles.keepsHouses (hs : Settles h id t t' k) : KeepsHouses h k := by
  cases hs with
  | vacant ho => exact fun a n hin => hin
  | reclaimed ho hm => exact fun a n hin => hin
  | held ho hm hr => exact fun a n hin => hin
  | moved ho hm hr hres => exact hres.keepsHouses

/-- The object that is moved, and where it can go. -/
theorem Sound.moving {o : Object} {a : Nat} (hh : h.Sound away) (ho : h.object? id = some o)
    (hres : Reserves (h.setObject id { o with marked := false }) o.footprint a k)
    (hsup : Buckets.Supplied (k.allBuckets ++ away)) :
    k.Sound away ∧ k.object? id = some { o with marked := false } ∧ k.Offers a o.footprint := by
  have hset : (h.setObject id { o with marked := false }).Sound away :=
    hh.congr (.setObject ho rfl) rfl rfl rfl rfl
  have hw := (hh.object ho).footprint_words
  have hpos := (hh.object ho).footprint_pos
  refine ⟨hset.reserve hres hw hpos, ?_, hres.offers hset hw hpos hsup⟩
  rw [hres.object?, object?_setObject (object?_lt ho), if_pos rfl]

namespace Settles

theorem sound (hs : Settles h id t t' k) (hh : h.Sound away)
    (hsup : Buckets.Supplied (k.allBuckets ++ away)) : k.Sound away := by
  cases hs with
  | vacant ho => exact hh
  | reclaimed ho hm => exact hh.reclaim ho
  | @held o ho hm hr =>
    have hset : (h.setObject id { o with marked := false }).Sound away :=
      hh.congr (.setObject ho rfl) rfl rfl rfl rfl
    exact hset.congr (.of_objects rfl rfl rfl) rfl rfl rfl rfl
  | moved ho hm hr hres =>
    obtain ⟨hk, hobj, hoff⟩ := hh.moving ho hres hsup
    exact hk.relocate hobj hoff

theorem untouched (hs : Settles h id t t' k) (hh : h.Sound away)
    (hsup : Buckets.Supplied (k.allBuckets ++ away)) {j : Nat} (hj : j ≠ id) :
    Untouched h k j := by
  have hobj := hs.object?_of_ne hj
  cases hs with
  | vacant ho => exact .refl h j
  | reclaimed ho hm => exact .of_memory hobj rfl
  | held ho hm hr => exact .of_memory hobj rfl
  | @moved o a l ho hm hr hres =>
    obtain ⟨hl, -, hoff⟩ := hh.moving ho hres hsup
    apply Untouched.of_read hobj
    intro p hp
    have hpl : l.object? j = some p := by
      rw [hres.object?, object?_setObject (object?_lt ho), if_neg hj, hp]
    -- the copy goes to storage that is no object's
    have havoid := hoff.avoided hpl
    have hlen := (hh.object hp).len_le
    have hapart : p.address + p.len ≤ a ∨ a + o.footprint ≤ p.address := by
      simp only [Object.Avoids] at havoid
      omega
    rw [Heap.relocate, Memory.read_copy_of_apart hapart, hres.memory]
    rfl

theorem fate (hs : Settles h id t t' k) (hh : h.Sound away)
    (hsup : Buckets.Supplied (k.allBuckets ++ away)) : Fate h k id := by
  cases hs with
  | vacant ho => exact .vacant ho ho
  | reclaimed ho hm =>
    exact .reclaimed ho hm (by rw [object?_reclaim (object?_lt ho), if_pos rfl])
  | @held o ho hm hr =>
    have hafter : Heap.object? { h.setObject id { o with marked := false } with
        storage := h.storage + o.footprint } id = some { o with marked := false } :=
      (object?_setObject (object?_lt ho) _ id).trans (if_pos rfl)
    refine .kept (a := o.address) ho hm hafter ?_ (iff_of_true rfl hr) ?_
    · rw [content?_eq ho, content?_eq hafter]
      rfl
    · intro hr'
      rw [hr] at hr'
      cases hr'
  | @moved o a l ho hm hr hres =>
    have hid : id < l.objects.length := by
      simpa [hres.objects, Heap.setObject] using object?_lt ho
    have hafter : (l.relocate id { o with marked := false } a).object? id =
        some { o with address := a, marked := false } := by
      rw [object?_relocate hid, if_pos rfl]
    obtain ⟨hl, hobj, hoff⟩ := hh.moving ho hres hsup
    refine .kept ho hm hafter ?_ (iff_of_false ?_ (by simp [hr])) fun _ => hoff.housed
    · rw [content?_eq ho, content?_eq hafter]
      simp only [Heap.relocate]
      rw [Memory.read_copy_self (hh.object ho).len_le, hres.memory]
      rfl
    · -- the storage on offer is not the object's own either
      have havoid := hoff.avoided hobj
      have hpos := (hh.object ho).footprint_pos
      simp only [Object.Avoids] at havoid
      omega

end Settles

/-! ## All decisions -/

namespace Fate

/-- What is left alone before and afterwards meets its fate in between. -/
theorem after_untouched (hf : Fate k l id) (hu : Untouched h k id) : Fate h l id := by
  cases hf with
  | vacant before after => exact .vacant (hu.object? ▸ before) after
  | reclaimed before hm after => exact .reclaimed (hu.object? ▸ before) hm after
  | kept before hm after content place house =>
    exact .kept (hu.object? ▸ before) hm after (content.trans hu.content?) place house

theorem before_untouched (hf : Fate h k id) (hu : Untouched k l id) (hkeep : KeepsHouses k l) :
    Fate h l id := by
  cases hf with
  | vacant before after => exact .vacant before (hu.object?.trans after)
  | reclaimed before hm after => exact .reclaimed before hm (hu.object?.trans after)
  | kept before hm after content place house =>
    exact .kept before hm (hu.object?.trans after) (hu.content?.trans content) place
      fun hr => hkeep _ _ (house hr)

end Fate

namespace SettlesAll

theorem settings (hs : SettlesAll h ids t t' k) : SameSettings h k := by
  induction hs with
  | nil h t => exact .refl h
  | cons head rest ih => exact head.settings.trans ih

theorem length (hs : SettlesAll h ids t t' k) : k.objects.length = h.objects.length := by
  induction hs with
  | nil h t => rfl
  | cons head rest ih => exact ih.trans head.length

theorem keepsHouses (hs : SettlesAll h ids t t' k) : KeepsHouses h k := by
  induction hs with
  | nil h t => exact fun a n hin => hin
  | cons head rest ih => exact fun a n hin => ih a n (head.keepsHouses a n hin)

theorem storage (hs : SettlesAll h ids t t' k) (hn : ids.Nodup) :
    k.storage = h.storage + h.due ids := by
  induction hs with
  | nil h t => rfl
  | @cons h k l id ids t u v head rest ih =>
    obtain ⟨hid, hn⟩ := List.nodup_cons.1 hn
    have hdue : k.due ids = h.due ids :=
      due_congr fun j hj => head.object?_of_ne fun heq => hid (heq ▸ hj)
    rw [ih hn, head.storage, hdue, due_cons, Nat.add_assoc]

end SettlesAll

theorem SettlesAll.extends (hs : SettlesAll h ids t t' k) : Extends h k := by
  induction hs with
  | nil h t => exact .refl h
  | cons head rest ih => exact head.extends.trans ih

namespace SettlesAll

theorem sound (hs : SettlesAll h ids t t' k) (hh : h.Sound away)
    (hsup : Buckets.Supplied (k.allBuckets ++ away)) : k.Sound away := by
  induction hs with
  | nil h t => exact hh
  | cons head rest ih =>
    exact ih (head.sound hh (rest.extends.supplied hsup)) hsup

theorem untouched (hs : SettlesAll h ids t t' k) (hh : h.Sound away)
    (hsup : Buckets.Supplied (k.allBuckets ++ away)) {j : Nat} (hj : j ∉ ids) :
    Untouched h k j := by
  induction hs with
  | nil h t => exact .refl h j
  | cons head rest ih =>
    have hsup' := rest.extends.supplied hsup
    rw [List.mem_cons, not_or] at hj
    exact (head.untouched hh hsup' hj.1).trans (ih (head.sound hh hsup') hsup hj.2)

theorem fate (hs : SettlesAll h ids t t' k) (hn : ids.Nodup) (hh : h.Sound away)
    (hsup : Buckets.Supplied (k.allBuckets ++ away)) {j : Nat} (hj : j ∈ ids) :
    Fate h k j := by
  induction hs with
  | nil h t => cases hj
  | @cons h k l id ids t u v head rest ih =>
    obtain ⟨hid, hn⟩ := List.nodup_cons.1 hn
    have hsup' := rest.extends.supplied hsup
    have hk := head.sound hh hsup'
    by_cases heq : j = id
    · subst heq
      exact (head.fate hh hsup').before_untouched (rest.untouched hk hsup hid) rest.keepsHouses
    · have hmem : j ∈ ids := (List.mem_cons.1 hj).resolve_left heq
      exact (ih hn hk hsup hmem).after_untouched (head.untouched hh hsup' heq)

end SettlesAll

end PinnedHeap.Heap
