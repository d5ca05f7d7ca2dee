import PinnedHeap.Proofs.Heap.Responses

/-!
# The effects of calls

What a call does to the heap as a whole (it stays settled) and to a single
object: `Responds.passes` says what becomes of one that exists, and
`Responds.appears` when one comes into being. Only writes change the bytes of
an object, and only retains and their counterparts the number of its retains.
-/

namespace PinnedHeap

open Heap (Call Answer)

namespace Heap.Call

/-- Does the call give the buffer of an object up? -/
def unroots (id : Nat) : Call → Bool
  | unroot j => j == id
  | _ => false

/-- The retains of an object after a call that had this answer. -/
def retainsAfter (o : Object) : Call → Except Fault Answer → Nat
  | retain a, .ok _ => if o.Covers a then o.retains + 1 else o.retains
  | unretain a, .ok _ => if o.Covers a then o.retains - 1 else o.retains
  | _, _ => o.retains

/-- The bytes of the object `o`, which has the id `id`, after a call. -/
def edit (id : Nat) (o : Object) (content : List UInt8) : Call → List UInt8
  | write j offset bytes =>
    if j = id ∧ offset + bytes.length ≤ o.len then Memory.overwrite content offset bytes
    else content
  | poke a bytes =>
    if o.address ≤ a ∧ a + bytes.length ≤ o.address + o.len then
      Memory.overwrite content (a - o.address) bytes
    else content
  | _ => content

/-- What comes from outside goes to the bytes of an object. -/
def Admissible (h : Heap) : Call → Prop
  | poke a bytes =>
    ∃ id o, h.object? id = some o ∧ o.address ≤ a ∧ a + bytes.length ≤ o.address + o.len
  | _ => True

instance (h : Heap) : (c : Call) → Decidable (c.Admissible h)
  | poke a bytes =>
    decidable_of_iff (∃ id ∈ List.range h.objects.length, ∃ o ∈ h.object? id,
        o.address ≤ a ∧ a + bytes.length ≤ o.address + o.len)
      ⟨fun ⟨id, _, o, ho, hin⟩ => ⟨id, o, ho, hin⟩,
        fun ⟨id, o, ho, hin⟩ => ⟨id, List.mem_range.2 (object?_lt ho), o, ho, hin⟩⟩
  | allocate _ | addressOf _ | write _ _ _ | read _ | unroot _ | retain _ | unretain _
  | isRetained _ | inhibit _ | allow | collect | collectIfWanted => isTrue trivial

end Heap.Call

namespace Heap

variable {h k : Heap} {c : Call} {r : Except Fault Answer}

/-! ## The invariant -/

theorem Settled.congr (hh : h.Settled) (hobj : k.objects = h.objects) (hi : k.index = h.index)
    (hv : k.vacant = h.vacant) (hc : k.config = h.config) (hb : k.buckets = h.buckets)
    (hsp : k.spare = h.spare) (ho : k.owned = h.owned) : k.Settled where
  sound := hh.sound.congr (.of_objects hobj hi hv) hc hb hsp ho
  unmarked hp := by
    unfold object? at hp
    rw [hobj] at hp
    exact hh.unmarked hp

theorem Settled.setObject (hh : h.Settled) {id : Nat} {o p : Object}
    (ho : h.object? id = some o) (hs : p.site = o.site) (hm : p.marked = o.marked) :
    (h.setObject id p).Settled where
  sound := hh.sound.congr (.setObject ho hs) rfl rfl rfl rfl
  unmarked := by
    intro j q hq
    rw [object?_setObject (object?_lt ho)] at hq
    split at hq
    · cases hq
      rw [hm]
      exact hh.unmarked ho
    · exact hh.unmarked hq

theorem sound_fresh {len : Nat} (hpos : 0 < len) (a : Nat) : (Object.fresh a len).Sound :=
  ⟨hpos, rfl⟩

theorem Sound.clear (hk : k.Sound []) (a n : Nat) :
    Sound { k with memory := k.memory.clear a n } [] :=
  hk.congr (.of_objects rfl rfl rfl) rfl rfl rfl rfl

theorem Sound.object?_furnish (hk : k.Sound []) (o : Object) (j : Nat) :
    (k.furnish o).object? j = if j = k.freshId then some o else k.object? j :=
  (hk.clear o.address o.footprint).object?_enter o j

theorem Sound.existing_furnish (hk : k.Sound []) (o : Object) :
    (k.furnish o).existing.Perm (o :: k.existing) :=
  (hk.clear o.address o.footprint).existing_enter o

theorem memory_furnish (k : Heap) (o : Object) :
    (k.furnish o).memory = k.memory.clear o.address o.footprint := by
  rw [furnish, enter_frame]

theorem settings_furnish (k : Heap) (o : Object) : SameSettings k (k.furnish o) := by
  rw [furnish, enter_frame]
  exact ⟨rfl, rfl, rfl, rfl⟩

theorem storage_furnish (k : Heap) (o : Object) : (k.furnish o).storage = k.storage := by
  rw [furnish, enter_frame]

theorem wantsCollection_furnish (k : Heap) (o : Object) :
    (k.furnish o).wantsCollection = k.wantsCollection := by
  rw [furnish, enter_frame]

theorem allBuckets_furnish (k : Heap) (o : Object) : (k.furnish o).allBuckets = k.allBuckets := by
  rw [furnish, enter_frame]
  rfl

/-- What becomes of the heap when room that was reserved is furnished. -/
theorem Settled.furnish {a len : Nat} (hh : h.Settled) (hpos : 0 < len)
    (hres : Reserves h (Word.roundUp len) a k) (hsup : Buckets.Supplied k.allBuckets) :
    (k.furnish (.fresh a len)).Settled ∧ k.Sound [] ∧ k.Offers a (Word.roundUp len) := by
  have hw := Word.roundUp_mod_size len
  have hbytes : 0 < Word.roundUp len := Nat.lt_of_lt_of_le hpos (Word.le_roundUp len)
  have hk := hh.sound.reserve hres hw hbytes
  have hoff := hres.offers hh.sound hw hbytes (by rw [List.append_nil]; exact hsup)
  have hclear := hk.clear a (Word.roundUp len)
  refine ⟨⟨hclear.enter (sound_fresh hpos a) ⟨hoff.housed, hoff.avoided⟩, ?_⟩, hk, hoff⟩
  intro j p hp
  rw [hk.object?_furnish] at hp
  split at hp
  · cases hp
    rfl
  · rw [hres.object?] at hp
    exact hh.unmarked hp

theorem supplied_furnish {o : Object} (hsup : (k.furnish o).Supplied) : k.Supplied := by
  rw [furnish, enter_frame] at hsup
  exact ⟨hsup.blocks, hsup.owned_lt⟩

/-- Calls keep the invariant. -/
theorem Responds.settled (hr : Responds h c r k) (hh : h.Settled) (hsup : k.Supplied) :
    k.Settled := by
  cases hr with
  | allocated hpos hres => exact (hh.furnish hpos hres (supplied_furnish hsup).blocks).1
  | address ho => exact hh
  | written ho hin => exact hh.congr rfl rfl rfl rfl rfl rfl rfl
  | content ho => exact hh
  | unrooted ho => exact hh.setObject ho rfl rfl
  | retained ho hcov hlt => exact hh.setObject ho rfl rfl
  | unretained ho hcov hpos => exact hh.setObject ho rfl rfl
  | flag hb => exact hh
  | inhibited ho hlt => exact hh.congr rfl rfl rfl rfl rfl rfl rfl
  | allowed hpos => exact hh.congr rfl rfl rfl rfl rfl rfl rfl
  | deferred hc hin => exact hh.congr rfl rfl rfl rfl rfl rfl rfl
  | collected hc hin hk hcan =>
    exact (hk.settled hh hsup.blocks).congr rfl rfl rfl rfl rfl rfl rfl
  | unwanted hw => exact hh
  | poked => exact hh.congr rfl rfl rfl rfl rfl rfl rfl
  | refused hr => exact hh
  | exhausted hpos hlt hex => exact hh.congr rfl rfl rfl rfl rfl rfl rfl
  | inhibitedInVain ho hlt => exact hh.congr rfl rfl rfl rfl rfl rfl rfl
  | collectedInVain hc hin hk hcan => exact hk.settled hh hsup.blocks

/-! ## An object that exists -/

/-- What becomes of an object in the course of a call. -/
inductive Passes (h : Heap) (c : Call) (r : Except Fault Answer) (k : Heap) (id : Nat)
    (o : Object) : Prop where
  | gone (collects : h.Collects c) (dead : o.isLive = false) (after : k.object? id = none)
  | stays {p : Object} (after : k.object? id = some p) (len : p.len = o.len)
      (rooted : p.rooted = (o.rooted && !c.unroots id))
      (retains : p.retains = c.retainsAfter o r)
      (place : 0 < o.retains ∨ ¬ h.Collects c → p.address = o.address)
      (content : k.memory.read p.address p.len = c.edit id o (h.memory.read o.address o.len))

/-- A call that does nothing to the object `o`, which has the id `id`. -/
structure Spares (c : Call) (r : Except Fault Answer) (id : Nat) (o : Object) : Prop where
  unroots : c.unroots id = false
  retains : c.retainsAfter o r = o.retains
  edit : ∀ content, c.edit id o content = content

variable {id : Nat} {o : Object}

theorem Passes.of_untouched (ho : h.object? id = some o) (hu : Untouched h k id)
    (hc : Spares c r id o) : Passes h c r k id o := by
  have hk := hu.object?.trans ho
  have hcontent := hu.content?
  rw [content?_eq ho, content?_eq hk, Option.some.injEq] at hcontent
  refine .stays hk rfl ?_ hc.retains.symm (fun _ => rfl) ?_
  · rw [hc.unroots, Bool.not_false, Bool.and_true]
  · rw [hc.edit, hcontent]

theorem Outlives.passes (hk : Outlives h k id) (hcol : h.Collects c)
    (ho : h.object? id = some o) (hc : Spares c r id o) : Passes h c r k id o := by
  cases hk with
  | vacant before after =>
    rw [ho] at before
    cases before
  | reclaimed before dead after =>
    rw [ho] at before
    cases before
    exact .gone hcol dead after
  | kept before live after content place =>
    rw [ho] at before
    cases before
    rw [content?_eq ho, content?_eq after, Option.some.injEq] at content
    refine .stays after rfl ?_ hc.retains.symm (fun hr => place.2 (decide_eq_true ?_)) ?_
    · rw [hc.unroots, Bool.not_false, Bool.and_true]
    · rcases hr with hr | hr
      · exact hr
      · exact absurd hcol hr
    · rw [hc.edit, content]

theorem Collects.spares (hc : h.Collects c) : Spares c r id o := by
  cases c with
  | collect => exact ⟨rfl, rfl, fun _ => rfl⟩
  | collectIfWanted => exact ⟨rfl, rfl, fun _ => rfl⟩
  | _ => cases hc

theorem retainsAfter_error (c : Call) (o : Object) (e : Fault) :
    c.retainsAfter o (.error e) = o.retains := by
  cases c <;> rfl

theorem Refuses.spares (hr : h.Refuses c) (ho : h.object? id = some o) (e : Fault) :
    Spares c (.error e) id o := by
  refine ⟨?_, retainsAfter_error c o e, ?_⟩
  · cases c with
    | unroot j =>
      apply beq_eq_false_iff_ne.2
      intro hj
      rw [Refuses, hj, ho] at hr
      cases hr
    | _ => rfl
  · intro content
    cases c with
    | write j offset bytes =>
      rw [Call.edit, if_neg]
      intro hin
      exact hr o (hin.1 ▸ ho) hin.2
    | poke a bytes => cases hr
    | _ => rfl

/-- Objects are not overwritten by what is written into others. -/
theorem Untouched.of_write (hh : h.Settled) (ho : h.object? id = some o) {i : Nat} {p : Object}
    (hp : h.object? i = some p) (hi : id ≠ i) {a : Nat} {bytes : List UInt8}
    (hle : p.address ≤ a) (hin : a + bytes.length ≤ p.address + p.len) :
    Untouched h { h with memory := h.memory.write a bytes } id := by
  refine .of_read rfl ?_
  intro q hq
  rw [ho] at hq
  cases hq
  have havoid := hh.sound.apart ho hp hi
  have h1 := (hh.sound.object ho).len_le
  have h2 := (hh.sound.object hp).len_le
  simp only [Object.Avoids] at havoid
  exact Memory.read_write_of_apart (by omega)

theorem Untouched.furnish {a len : Nat} (hh : h.Settled) (ho : h.object? id = some o)
    (hpos : 0 < len) (hres : Reserves h (Word.roundUp len) a k)
    (hsup : Buckets.Supplied k.allBuckets) : Untouched h (k.furnish (.fresh a len)) id := by
  obtain ⟨-, hk, hoff⟩ := hh.furnish hpos hres hsup
  have hne : id ≠ k.freshId := by
    rintro rfl
    have := hk.object?_freshId
    rw [hres.object?, ho] at this
    cases this
  refine .of_read ?_ ?_
  · rw [hk.object?_furnish, if_neg hne, hres.object?]
  · intro p hp
    -- the storage that is cleared was on offer
    have havoid := hoff.avoided (hres.object? id ▸ hp)
    have hlen := (hh.sound.object hp).len_le
    simp only [Object.Avoids] at havoid
    have hapart : p.address + p.len ≤ a ∨ a + Word.roundUp len ≤ p.address := by omega
    rw [memory_furnish, ← hres.memory]
    exact Memory.read_clear_of_apart hapart

theorem Untouched.setObject {j : Nat} {p : Object} (hj : h.object? j = some p) (hne : id ≠ j)
    (q : Object) : Untouched h (h.setObject j q) id :=
  .of_memory (by rw [object?_setObject (object?_lt hj), if_neg hne]) rfl

/-- What becomes of an object when one is changed without moving it. -/
theorem Passes.of_setObject {j : Nat} {p q : Object} (ho : h.object? id = some o)
    (hp : h.object? j = some p) (hs : q.site = p.site) (hretains : q.retains = c.retainsAfter p r)
    (hrooted : id = j → q.rooted = (p.rooted && !c.unroots id))
    (hother : id ≠ j → c.unroots id = false ∧ c.retainsAfter o r = o.retains)
    (hedit : ∀ content, c.edit id o content = content) :
    Passes h c r (h.setObject j q) id o := by
  by_cases hj : id = j
  · subst hj
    rw [ho] at hp
    cases hp
    simp only [Object.site, Prod.mk.injEq] at hs
    obtain ⟨haddress, hlen, -⟩ := hs
    refine .stays ((object?_setObject (object?_lt ho) _ _).trans (if_pos rfl)) hlen (hrooted rfl)
      hretains (fun _ => haddress) ?_
    rw [hedit, haddress, hlen]
    rfl
  · obtain ⟨hunroots, hretains⟩ := hother hj
    exact .of_untouched ho (.setObject hp hj q) ⟨hunroots, hretains, hedit⟩

theorem Responds.passes (hr : Responds h c r k) (hh : h.Settled) (hsup : k.Supplied)
    (hc : c.Admissible h) (ho : h.object? id = some o) : Passes h c r k id o := by
  have hnone : Spares c r id o → Untouched h k id → Passes h c r k id o :=
    fun hs hu => .of_untouched ho hu hs
  cases hr with
  | allocated hpos hres =>
    exact hnone ⟨rfl, rfl, fun _ => rfl⟩
      (.furnish hh ho hpos hres (supplied_furnish hsup).blocks)
  | address _ => exact hnone ⟨rfl, rfl, fun _ => rfl⟩ (.refl h id)
  | content _ => exact hnone ⟨rfl, rfl, fun _ => rfl⟩ (.refl h id)
  | flag _ => exact hnone ⟨rfl, rfl, fun _ => rfl⟩ (.refl h id)
  | unwanted _ => exact hnone ⟨rfl, rfl, fun _ => rfl⟩ (.refl h id)
  | refused href => exact hnone (href.spares ho _) (.refl h id)
  | inhibited _ _ => exact hnone ⟨rfl, rfl, fun _ => rfl⟩ (.of_memory rfl rfl)
  | allowed _ => exact hnone ⟨rfl, rfl, fun _ => rfl⟩ (.of_memory rfl rfl)
  | deferred hcol _ => exact hnone hcol.spares (.of_memory rfl rfl)
  | exhausted _ _ _ => exact hnone ⟨rfl, rfl, fun _ => rfl⟩ (.of_memory rfl rfl)
  | inhibitedInVain _ _ => exact hnone ⟨rfl, rfl, fun _ => rfl⟩ (.of_memory rfl rfl)
  | collected hcol _ hk _ =>
    have hout := hk.outlives hh hsup.blocks id
    cases hout.passes hcol ho (hcol.spares (r := .ok _)) with
    | gone collects dead after => exact .gone collects dead after
    | stays after len rooted retains place content =>
      exact .stays after len rooted retains place content
  | collectedInVain hcol _ hk _ => exact (hk.outlives hh hsup.blocks id).passes hcol ho hcol.spares
  | @written j offset bytes p hp hin =>
    by_cases hj : id = j
    · subst hj
      rw [ho] at hp
      cases hp
      refine .stays ho rfl (by simp [Call.unroots]) rfl (fun _ => rfl) ?_
      rw [Call.edit, if_pos ⟨rfl, hin⟩]
      exact Memory.read_write_inside hin
    · refine hnone ⟨rfl, rfl, ?_⟩
        (.of_write hh ho hp hj (Nat.le_add_right _ _) (by omega))
      intro content
      rw [Call.edit, if_neg fun hin => hj hin.1.symm]
  | @poked a bytes =>
    obtain ⟨j, p, hp, hle, hin⟩ := hc
    by_cases hj : id = j
    · subst hj
      rw [ho] at hp
      cases hp
      refine .stays ho rfl (by simp [Call.unroots]) rfl (fun _ => rfl) ?_
      rw [Call.edit, if_pos ⟨hle, hin⟩]
      have hsum : a = o.address + (a - o.address) := by omega
      conv => lhs; rw [hsum]
      exact Memory.read_write_inside (by omega)
    · refine hnone ⟨rfl, rfl, ?_⟩ (.of_write hh ho hp hj hle hin)
      intro content
      rw [Call.edit]
      split
      · -- a write into two objects at once writes nothing
        next hboth =>
        have havoid := hh.sound.apart ho hp hj
        have h1 := (hh.sound.object ho).len_le
        have h2 := (hh.sound.object hp).len_le
        simp only [Object.Avoids] at havoid
        have hnil : bytes = [] := List.eq_nil_of_length_eq_zero (by omega)
        rw [hnil, Memory.overwrite_nil]
      · rfl
  | @unrooted j p hp =>
    refine .of_setObject ho hp rfl rfl ?_ ?_ (fun _ => rfl)
    · rintro rfl
      simp [Call.unroots]
    · intro hj
      exact ⟨beq_eq_false_iff_ne.2 (Ne.symm hj), rfl⟩
  | @retained a j p hp hcov hlt =>
    refine .of_setObject ho hp rfl ?_ (fun _ => (Bool.and_true _).symm) ?_ (fun _ => rfl)
    · rw [Call.retainsAfter, if_pos hcov]
    · intro hj
      refine ⟨rfl, ?_⟩
      rw [Call.retainsAfter, if_neg]
      exact fun hcov' => hj (eq_of_covers hh ho hp hcov' hcov).1
  | @unretained a j p hp hcov hpos =>
    refine .of_setObject ho hp rfl ?_ (fun _ => (Bool.and_true _).symm) ?_ (fun _ => rfl)
    · rw [Call.retainsAfter, if_pos hcov]
    · intro hj
      refine ⟨rfl, ?_⟩
      rw [Call.retainsAfter, if_neg]
      exact fun hcov' => hj (eq_of_covers hh ho hp hcov' hcov).1

/-! ## An object that does not exist -/

/-- Whether an object comes into being in the course of a call. -/
inductive Appears (c : Call) (r : Except Fault Answer) (k : Heap) (id : Nat) : Prop where
  | absent (answer : ∀ len, r ≠ .ok (.buffer ⟨id, len⟩)) (after : k.object? id = none)
  | made {len a : Nat} (call : c = .allocate len) (answer : r = .ok (.buffer ⟨id, len⟩))
      (after : k.object? id = some (.fresh a len))
      (content : k.memory.read a len = List.replicate len 0)

theorem Outlives.absent (hk : Outlives h k id) (ho : h.object? id = none) :
    k.object? id = none := by
  cases hk with
  | vacant before after => exact after
  | reclaimed before dead after => exact after
  | kept before live after content place =>
    rw [ho] at before
    cases before

theorem Responds.appears (hr : Responds h c r k) (hh : h.Settled) (hsup : k.Supplied)
    (ho : h.object? id = none) : Appears c r k id := by
  have hset : ∀ {j : Nat} {p : Object} (q : Object), h.object? j = some p →
      (h.setObject j q).object? id = none := by
    intro j p q hp
    rw [object?_setObject (object?_lt hp), if_neg, ho]
    rintro rfl
    rw [ho] at hp
    cases hp
  have hout : ∀ {l : Heap}, Swept h l → Buckets.Supplied l.allBuckets → l.object? id = none :=
    fun hl hsup => (hl.outlives hh hsup id).absent ho
  cases hr with
  | @allocated len a k hpos hres =>
    obtain ⟨-, hk, hoff⟩ := hh.furnish hpos hres (supplied_furnish hsup).blocks
    have hfresh := hres.freshId
    by_cases hid : id = h.freshId
    · subst hid
      refine .made rfl rfl (a := a) ?_ ?_
      · rw [hk.object?_furnish, if_pos hfresh.symm]
      · rw [memory_furnish]
        exact Memory.read_clear_self (Word.le_roundUp len)
    · refine .absent ?_ ?_
      · intro n heq
        cases heq
        exact hid rfl
      · rw [hk.object?_furnish, if_neg (fun heq => hid (heq.trans hfresh)), hres.object?, ho]
  | collected _ _ hk _ =>
    have hnone := hout hk hsup.blocks
    exact .absent (fun n heq => by cases heq) hnone
  | collectedInVain _ _ hk _ => exact .absent (fun n heq => by cases heq) (hout hk hsup.blocks)
  | unrooted hp => exact .absent (fun n heq => by cases heq) (hset _ hp)
  | retained hp _ _ => exact .absent (fun n heq => by cases heq) (hset _ hp)
  | unretained hp _ _ => exact .absent (fun n heq => by cases heq) (hset _ hp)
  | _ => exact .absent (fun n heq => by cases heq) ho

/-- A buffer that is handed out has an id that no object has. -/
theorem Responds.object?_eq_none (hr : Responds h c r k) (hh : h.Settled) {len : Nat}
    (hans : r = .ok (.buffer ⟨id, len⟩)) : h.object? id = none := by
  cases hr with
  | allocated hpos hres =>
    cases hans
    exact hh.sound.object?_freshId
  | _ => cases hans

end Heap

end PinnedHeap
