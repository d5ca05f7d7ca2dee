import PinnedHeap.Proofs.Heap.Census
import PinnedHeap.Proofs.Heap.Responses
import PinnedHeap.Proofs.Placement.Storage

/-!
# Calls under two placements

Every call but a collection: what it is told by one heap it is told by the
other, up to the place of the buckets, and so it does the same.
-/

namespace PinnedHeap.Heap.Placements

open Comparison

variable {w : Placements} {h k : Heap} {m : Memory} {x : AddressIndex} {id a : Nat} {o p : Object}

/-- The same address under the other placement. -/
def SameAddress (w : Placements) (a a' : Nat) : Prop := w.Known a ∧ a' = w.carry a

/-! ## Changes that leave heaps alike -/

theorem Tidy.alike_setObject (ht : w.Tidy h) (hm : w.SameBytes h.memory m)
    (hx : w.SameIndex h.index x) (ho : h.object? id = some o) (hp : w.Lodges p)
    (hsame : p.address = o.address) :
    w.Alike (h.setObject id p) ((w.image h m x).setObject id (p.readdress w.carry)) := by
  rw [setObject_image]
  exact ⟨ht.setObject ho hp hsame, hm, hx⟩

/-- A change of the object that is neither of its place nor of its size. -/
theorem Lodges.of_site (ho : w.Lodges o) (hs : p.site = o.site) : w.Lodges p := by
  simp only [Object.site, Prod.mk.injEq] at hs
  obtain ⟨haddr, hlen, hfoot⟩ := hs
  refine ⟨?_, hlen ▸ ho.len_pos, ?_, hfoot ▸ ho.words⟩
  · rw [haddr, hfoot]
    exact ho.spans
  · rw [hlen, hfoot]
    exact ho.len_le

theorem freshId_image : (w.image h m x).freshId = h.freshId := by
  simp only [freshId, image, List.length_map]

theorem enter_image (o : Object) :
    (w.image h m x).enter (o.readdress w.carry) =
      w.image (h.enter o) m (x.insert (w.carry o.address) h.freshId) := by
  have hvacant : (w.image h m x).vacant = h.vacant := rfl
  unfold enter freshId
  rw [hvacant]
  cases h.vacant with
  | nil => simp [image]
  | cons id vacant => simp [image, Heap.setObject]

theorem Tidy.object?_freshId (ht : w.Tidy h) : h.object? h.freshId = none := by
  unfold freshId
  cases hv : h.vacant with
  | nil =>
    rw [object?, List.getElem?_eq_none (Nat.le_refl _)]
    rfl
  | cons id vacant => exact (ht.vacant id (by rw [hv]; exact List.mem_cons_self)).2

/-- The positions that are still empty once the new object has taken one. -/
theorem Tidy.mem_vacant_enter (ht : w.Tidy h) (hid : id ∈ (h.enter o).vacant) :
    id ∈ h.vacant ∧ id ≠ h.freshId := by
  unfold Heap.enter at hid
  unfold freshId
  cases hv : h.vacant with
  | nil => simp [hv] at hid
  | cons j vacant =>
    rw [hv] at hid
    have hnodup := List.nodup_cons.1 (hv ▸ ht.nodup)
    exact ⟨List.mem_cons_of_mem _ hid, fun heq : id = j => hnodup.1 (heq ▸ hid)⟩

/-- The new object takes a position at which there was none. -/
theorem Tidy.enter (ht : w.Tidy h) (ho : w.Lodges o) : w.Tidy (h.enter o) := by
  have hobj := object?_enter (fun id hid => (ht.vacant id hid).1) o
  have hframe := enter_frame h o
  have hindex : (h.enter o).index = h.index.insert o.address h.freshId := by rw [hframe]
  exact {
    placement := by rw [hframe]; exact ht.placement
    buckets := by
      have hall : (h.enter o).allBuckets = h.allBuckets := by rw [hframe]; rfl
      rw [hall]
      exact ht.buckets
    objects := fun id p hp => by
      rw [hobj] at hp
      split at hp
      · cases hp
        exact ho
      · exact ht.objects id p hp
    sorted := by rw [hindex]; exact ht.sorted.insert _ _
    indexed := fun e he => by
      rw [hindex] at he
      rw [hobj]
      rcases (AddressIndex.mem_insert ht.sorted).1 he with rfl | ⟨he, -⟩
      · exact ⟨o, if_pos rfl, rfl⟩
      · obtain ⟨q, hq, haddr⟩ := ht.indexed e he
        refine ⟨q, ?_, haddr⟩
        rw [if_neg, hq]
        intro heq
        rw [heq, ht.object?_freshId] at hq
        cases hq
    vacant := fun id hid => by
      obtain ⟨hmem, hne⟩ := ht.mem_vacant_enter hid
      obtain ⟨hlt, hnone⟩ := ht.vacant id hmem
      refine ⟨?_, by rw [hobj, if_neg hne, hnone]⟩
      have := length_enter h o
      omega
    nodup := by
      unfold Heap.enter
      cases hv : h.vacant with
      | nil => exact List.nodup_nil
      | cons id vacant => exact (List.nodup_cons.1 (hv ▸ ht.nodup)).2 }

/-! ## Objects by their ids -/

theorem get_bind {α : Type} {Q : α → α → Prop} {f g : Object → HeapAction α} (hst : w.Alike h k)
    (hf : ∀ o, h.object? id = some o → w.Lodges o →
      w.heaps.Meets Q h k (f o) (g (o.readdress w.carry))) :
    w.heaps.Meets Q h k (get id >>= f) (get id >>= g) := by
  obtain @⟨m, x, ht, hm, hx⟩ := hst
  have hobj := object?_image (w := w) (h := h) (m := m) (x := x) id
  unfold Comparison.Meets
  cases ho : h.object? id with
  | none =>
    rw [ho, Option.map_none] at hobj
    rw [Action.run_bind_of_error (run_get_of_none ho),
      Action.run_bind_of_error (run_get_of_none hobj)]
    exact fun _ => ⟨rfl, ⟨ht, hm, hx⟩, .nil, rfl⟩
  | some o =>
    rw [ho, Option.map_some] at hobj
    rw [Action.run_bind_of_ok (run_get ho), Action.run_bind_of_ok (run_get hobj)]
    exact hf o ho (ht.objects id o ho)

theorem meets_addressOf (hst : w.Alike h k) (id : Nat) :
    w.heaps.Meets w.SameAddress h k (addressOf id) (addressOf id) :=
  get_bind hst fun _ _ ho => .pure hst ⟨ho.known, rfl⟩

theorem ends_writeAt (hst : w.Alike h k) (id offset : Nat) (bytes : List UInt8) :
    w.Ends h k (writeAt id offset bytes) (writeAt id offset bytes) := by
  refine get_bind hst fun o _ ho => ?_
  have hcheck : (o.readdress w.carry).checkRange offset bytes.length =
      o.checkRange offset bytes.length := rfl
  rw [hcheck]
  refine .ofExcept_bind hst (fun e he => ?_) fun _ hok => ?_
  · unfold Object.checkRange at he
    split at he <;> cases he
    rfl
  · obtain ⟨ht, hm, hx⟩ := hst
    have hin : offset + bytes.length ≤ o.len := by
      unfold Object.checkRange at hok
      split at hok
      · next hin => exact hin.1
      · cases hok
    have hspans : w.Spans (o.address + offset) bytes.length :=
      (ho.spans_len.add (by omega)).mono (by omega)
    refine .update ⟨ht.congr rfl ht.buckets rfl rfl rfl, ?_, hx⟩ rfl
    show w.SameBytes _ (Memory.write _ (w.carry o.address + offset) bytes)
    rw [← ho.spans_len.carry_add (by omega)]
    exact hm.write hspans

theorem agrees_contentOf (hst : w.Alike h k) (id : Nat) :
    w.Agrees h k (contentOf id) (contentOf id) := by
  refine get_bind hst fun o _ ho => .read_bind (.pure hst ?_)
  obtain ⟨ht, hm, hx⟩ := hst
  exact hm.read ho.spans_len

theorem ends_unroot (hst : w.Alike h k) (id : Nat) : w.Ends h k (unroot id) (unroot id) := by
  refine get_bind hst fun o hid ho => ?_
  obtain ⟨ht, hm, hx⟩ := hst
  exact .update (ht.alike_setObject hm hx hid (ho.of_site rfl) rfl) rfl

theorem meets_inhibit (hst : w.Alike h k) (id : Nat) :
    w.heaps.Meets w.SameAddress h k (inhibit id) (inhibit id) := by
  obtain ⟨ht, hm, hx⟩ := hst
  refine .read_bind (.ofExcept_bind ⟨ht, hm, hx⟩ (fun e he => Word.add_fault he _) fun n _ => ?_)
  exact .update_bind rfl ⟨ht.congr rfl ht.buckets rfl rfl rfl, hm, hx⟩
    fun _ _ _ hst => meets_addressOf hst id

theorem ends_allow (hst : w.Alike h k) : w.Ends h k allow allow := by
  obtain ⟨ht, hm, hx⟩ := hst
  refine .read_bind (.require_bind ⟨ht, hm, hx⟩ Iff.rfl rfl fun _ => ?_)
  exact .update ⟨ht.congr rfl ht.buckets rfl rfl rfl, hm, hx⟩ rfl

theorem meets_capture (hst : w.Alike h k) (id : Nat) :
    w.heaps.Meets w.SameAddress h k (capture id) (capture id) := by
  refine (meets_inhibit hst id).bind fun a a' h k _ haa hst => ?_
  obtain ⟨ha, rfl⟩ := haa
  refine .ite (carry_eq_zero ha) (fun _ => ?_) fun _ => .pure hst ⟨ha, rfl⟩
  exact (ends_allow hst).bind fun _ _ _ _ _ _ hst => .fail hst rfl

/-! ## Objects by their addresses -/

/-- Both heaps find the same object, and go on with it. -/
theorem find_bind {α : Type} {Q : α → α → Prop} {f g : Option Nat → HeapAction α}
    (hst : w.Alike h k) (ha : w.Known a) (hf : ∀ r, w.heaps.Meets Q h k (f r) (g r)) :
    w.heaps.Meets Q h k (Action.ofExcept (h.find? a) >>= f)
      (Action.ofExcept (k.find? (w.carry a)) >>= g) := by
  obtain @⟨m, x, ht, hm, hx⟩ := hst
  obtain ⟨r, hr, hr', -⟩ := find?_image (m := m) ht hx ha
  rw [hr, hr']
  exact .ofExcept_bind ⟨ht, hm, hx⟩ nofun fun r _ => hf r

theorem ends_retain (hst : w.Alike h k) (ha : w.Known a) :
    w.Ends h k (retain a) (retain (w.carry a)) := by
  refine .read_bind (find_bind hst ha fun r => ?_)
  cases r with
  | none => exact .fail hst rfl
  | some id =>
    refine get_bind hst fun o hid ho => ?_
    refine .ofExcept_bind hst (fun e he => Word.add_fault he _) fun n _ => ?_
    obtain ⟨ht, hm, hx⟩ := hst
    exact .update_bind rfl (ht.alike_setObject hm hx hid (ho.of_site rfl) rfl)
      fun _ _ _ hst => .note hst rfl rfl

theorem agrees_isRetained (hst : w.Alike h k) (ha : w.Known a) :
    w.Agrees h k (isRetained a) (isRetained (w.carry a)) := by
  refine .read_bind (find_bind hst ha fun r => ?_)
  cases r with
  | none => exact .pure hst rfl
  | some id => exact get_bind hst fun _ _ _ => .pure hst rfl

theorem ends_unretain (hst : w.Alike h k) (ha : w.Known a) :
    w.Ends h k (unretain a) (unretain (w.carry a)) := by
  refine .read_bind (find_bind hst ha fun r => ?_)
  cases r with
  | none => exact .fail hst rfl
  | some id =>
    refine get_bind hst fun o hid ho => .require_bind hst Iff.rfl rfl fun _ => ?_
    obtain ⟨ht, hm, hx⟩ := hst
    exact .update_bind rfl (ht.alike_setObject hm hx hid (ho.of_site rfl) rfl)
      fun _ _ _ hst => .note hst rfl rfl

/-! ## New objects, and bytes from outside -/

theorem agrees_enroll (hst : w.Alike h k) (ho : w.Lodges o) :
    w.Agrees h k (enroll o) (enroll (o.readdress w.carry)) := by
  obtain @⟨m, x, ht, hm, hx⟩ := hst
  unfold Agrees Comparison.Meets
  rw [run_enroll, run_enroll, freshId_image, enter_image]
  have hframe := enter_frame h o
  have hcreated : (h.enter o).created = h.created := by rw [hframe]
  have hmemory : (h.enter o).memory = h.memory := by rw [hframe]
  have hindex : (h.enter o).index = h.index.insert o.address h.freshId := by rw [hframe]
  refine fun _ => ⟨rfl, ⟨ht.enter ho, hmemory ▸ hm, ?_⟩, .nil, hcreated⟩
  rw [hindex]
  exact hx.insert ht.sorted ht.known ho.known _

theorem agrees_allocate (hst : w.Alike h k) (len : Nat) :
    w.Agrees h k (allocate len) (allocate len) := by
  refine .require_bind hst Iff.rfl rfl fun hpos => ?_
  refine .ofExcept_bind hst (fun e he => Word.mul_fault he _) fun n hn => ?_
  obtain ⟨-, rfl⟩ := Word.mul_eq_ok.1 hn
  refine (meets_reserve hst _).bind fun a a' h k _ haa hst => ?_
  obtain ⟨ha, rfl⟩ := haa
  obtain ⟨ht, hm, hx⟩ := hst
  refine .update_bind rfl ⟨ht.congr rfl ht.buckets rfl rfl rfl, hm.clear ha, hx⟩ fun _ _ _ hst => ?_
  have ho : w.Lodges
      { address := a, len, footprint := Word.count len * Word.size, rooted := true, marked := false,
        retains := 0 } :=
    ⟨ha, hpos, Word.le_roundUp len, Word.roundUp_mod_size len⟩
  refine (agrees_enroll hst ho).bind fun id id' h k _ hid hst => ?_
  exact .pure hst (by rw [hid])

theorem ends_poke {bytes : List UInt8} (hst : w.Alike h k) (ha : w.Spans a bytes.length) :
    w.Ends h k (poke a bytes) (poke (w.carry a) bytes) := by
  obtain ⟨ht, hm, hx⟩ := hst
  exact .update ⟨ht.congr rfl ht.buckets rfl rfl rfl, hm.write ha, hx⟩ rfl

/-! ## The listing -/

theorem countNotices_image (hx : w.SameIndex h.index x) (ht : w.Tidy h) :
    (w.image h m x).countNotices = h.countNotices := by
  have hsize : (w.image h m x).index.size = h.index.size :=
    (hx.perm ht.sorted ht.known).length_eq.trans (List.length_map _)
  simp only [countNotices, length_buckets_image, length_spare_image, hsize]
  rfl

theorem entryNotices_image (es : List (Nat × Nat)) :
    (w.image h m x).entryNotices (es.map fun e => (w.carry e.1, e.2)) =
      (h.entryNotices es).map (Notice.readdress w.carry) := by
  simp only [entryNotices, List.filterMap_map, List.map_filterMap, Function.comp_def,
    object?_image]
  refine List.filterMap_congr fun e _ => ?_
  cases h.object? e.2 <;> rfl

theorem isRow_entryNotices (es : List (Nat × Nat)) :
    ∀ n ∈ h.entryNotices es, n.isRow = true := by
  intro n hn
  obtain ⟨e, -, he⟩ := List.mem_filterMap.1 hn
  obtain ⟨o, -, rfl⟩ := Option.map_eq_some_iff.1 he
  rfl

/-- The listings have the same rows. -/
theorem ends_list (hst : w.Alike h k) : w.Ends h k list list := by
  obtain @⟨m, x, ht, hm, hx⟩ := hst
  have hperm := hx.perm ht.sorted ht.known
  have hindexed : ∀ e ∈ h.index.entries, ∃ o, h.object? e.2 = some o := fun e he =>
    (ht.indexed e he).imp fun o ho => ho.1
  have hindexed' : ∀ e ∈ x.entries, ∃ o, (w.image h m x).object? e.2 = some o := by
    intro e he
    obtain ⟨d, hd, rfl⟩ := (hx.mem_iff e).1 he
    obtain ⟨o, ho⟩ := hindexed d hd
    exact ⟨o.readdress w.carry, by rw [object?_image, ho]; rfl⟩
  have hrows : ((w.image h m x).entryNotices x.entries).Perm
      ((h.entryNotices h.index.entries).map (Notice.readdress w.carry)) := by
    rw [← entryNotices_image]
    exact hperm.filterMap _
  unfold Ends Comparison.Meets
  rw [run_list hindexed, run_list (h := w.image h m x) hindexed', countNotices_image hx ht]
  refine fun _ => ⟨trivial, ⟨ht, hm, hx⟩, ?_, ?_⟩
  · have hlog := SameLog.rows (isRow_entryNotices h.index.entries) hrows .nil
    rw [List.append_nil, List.append_nil] at hlog
    exact SameLog.append (.of_map h.countNotices) hlog
  · have hnone : w.heaps.sizesIn (h.entryNotices h.index.entries) = [] :=
      List.filterMap_eq_nil_iff.2 fun n hn =>
        Notice.created?_of_isRow (isRow_entryNotices h.index.entries n hn)
    rw [sizesIn_append, hnone]
    rfl

end PinnedHeap.Heap.Placements
