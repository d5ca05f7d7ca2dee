import PinnedHeap.Proofs.Placement.Calls

/-!
# Collections under two placements

Which buckets are kept depends on whether a retained object lies in them, and
not on where they lie. From then on the two collections take the same decision
about every object, one after the other.
-/

namespace PinnedHeap.Heap.Placements

open Comparison

variable {w : Placements} {h k : Heap} {m : Memory} {x : AddressIndex} {id a : Nat} {o p : Object}
  {b : Bucket}

/-! ## Pinned buckets -/

theorem Lies.contains_carry (hb : w.Lies b) (ha : w.Known a) :
    (b.readdress w.carry).contains (w.carry a) = b.contains a := by
  rw [Bool.eq_iff_iff, Bucket.contains_iff, Bucket.contains_iff]
  exact carry_covers hb.whole ha

theorem Tidy.known_existing (ht : w.Tidy h) (ho : o ∈ h.existing) : w.Known o.address := by
  obtain ⟨id, hid⟩ := exists_of_mem_existing ho
  exact (ht.objects id o hid).known

/-- The same buckets hold a retained object. -/
theorem pins_image (ht : w.Tidy h) (hb : w.Lies b) :
    (w.image h m x).pins (b.readdress w.carry) = h.pins b := by
  simp only [pins, existing_image, List.any_map]
  rw [Bool.eq_iff_iff, List.any_eq_true, List.any_eq_true]
  refine exists_congr fun o => and_congr_right fun ho => ?_
  simp only [Function.comp_apply, Object.isRetained_readdress, Object.address_readdress,
    hb.contains_carry (ht.known_existing ho)]

theorem Tidy.lies (ht : w.Tidy h) (hb : b ∈ h.buckets) : w.Lies b :=
  ht.buckets b (List.mem_append_left _ hb)

theorem pinnedBuckets_image (ht : w.Tidy h) :
    (w.image h m x).pinnedBuckets = h.pinnedBuckets.map (Bucket.readdress w.carry) := by
  have hbuckets : (w.image h m x).buckets = h.buckets.map (Bucket.readdress w.carry) := rfl
  rw [pinnedBuckets, hbuckets, List.filter_map]
  exact congrArg _ (List.filter_congr fun b hb => pins_image ht (ht.lies hb))

theorem unpinnedBuckets_image (ht : w.Tidy h) :
    (w.image h m x).unpinnedBuckets = h.unpinnedBuckets.map (Bucket.readdress w.carry) := by
  have hbuckets : (w.image h m x).buckets = h.buckets.map (Bucket.readdress w.carry) := rfl
  rw [unpinnedBuckets, hbuckets, List.filter_map]
  exact congrArg _ (List.filter_congr fun b hb => by
    rw [Function.comp_apply, pins_image ht (ht.lies hb)])

/-! ## Marking -/

theorem Tidy.prepare (ht : w.Tidy h) : w.Tidy h.prepare where
  placement := ht.placement
  buckets b hb := by
    rcases List.mem_append.1 hb with hb | hb
    · exact ht.lies (List.mem_of_mem_filter hb)
    · exact ht.buckets b (List.mem_append_right _ hb)
  objects id p hp := by
    rw [object?_prepare] at hp
    obtain ⟨o, ho, rfl⟩ := Option.map_eq_some_iff.1 hp
    exact (ht.objects id o ho).of_site (Object.site_markIfLive o)
  sorted := ht.sorted
  indexed e he := by
    obtain ⟨o, ho, haddr⟩ := ht.indexed e he
    have hsite := congrArg Prod.fst (Object.site_markIfLive o)
    exact ⟨o.markIfLive, by rw [object?_prepare, ho]; rfl, hsite.trans haddr⟩
  vacant id hid := by
    obtain ⟨hlt, hnone⟩ := ht.vacant id hid
    exact ⟨by simpa [Heap.prepare, mark] using hlt, by rw [object?_prepare, hnone]; rfl⟩
  nodup := ht.nodup

theorem prepare_image (ht : w.Tidy h) : (w.image h m x).prepare = w.image h.prepare m x := by
  have hmark : (h.objects.map (Option.map (Object.readdress w.carry))).map
      (Option.map Object.markIfLive) =
        (h.objects.map (Option.map Object.markIfLive)).map
          (Option.map (Object.readdress w.carry)) := by
    rw [List.map_map, List.map_map]
    refine List.map_congr_left fun slot _ => ?_
    cases slot with
    | none => rfl
    | some o => exact congrArg some o.markIfLive_readdress
  simp only [Heap.prepare, pinnedBuckets_image ht]
  simp only [image, mark, hmark]

theorem alike_prepare (hst : w.Alike h k) : w.Alike h.prepare k.prepare := by
  obtain ⟨ht, hm, hx⟩ := hst
  rw [prepare_image ht]
  exact ⟨ht.prepare, hm, hx⟩

/-! ## One object -/

theorem ends_hold (hst : w.Alike h k) (ho : h.object? id = some o) (hp : p.site = o.site) :
    w.Ends h k (hold id p) (hold id (p.readdress w.carry)) := by
  obtain ⟨ht, hm, hx⟩ := hst
  have hlodges := (ht.objects id o ho).of_site hp
  have haddr : p.address = o.address := congrArg Prod.fst hp
  refine .update_bind rfl (ht.alike_setObject hm hx ho hlodges haddr) fun _ _ _ hst => .read_bind ?_
  obtain ⟨ht, hm, hx⟩ := hst
  refine .ofExcept_bind ⟨ht, hm, hx⟩ (fun e he => Word.add_fault he _) fun n _ => ?_
  exact .update ⟨ht.congr rfl ht.buckets rfl rfl rfl, hm, hx⟩ rfl

theorem relocate_image (o : Object) :
    (w.image h m x).relocate id (o.readdress w.carry) (w.carry a) =
      w.image (h.relocate id o a) (m.copy (w.carry o.address) (w.carry a) o.footprint)
        ((x.erase (w.carry o.address)).insert (w.carry a) id) := by
  simp only [relocate, setObject, image, List.map_set]
  rfl

theorem alike_relocate (hst : w.Alike h k) (ho : h.object? id = some o)
    (ha : w.Spans a o.footprint) :
    w.Alike (h.relocate id o a) (k.relocate id (o.readdress w.carry) (w.carry a)) := by
  obtain ⟨ht, hm, hx⟩ := hst
  have hknown := (ht.objects id o ho).known
  rw [relocate_image]
  refine ⟨ht.relocate ho ha, hm.copy (ht.objects id o ho).spans ha, ?_⟩
  refine (hx.erase ht.known hknown).insert (ht.sorted.erase _) (fun d hd => ?_) ha.known id
  exact ht.known d (AddressIndex.mem_erase.1 hd).1

theorem ends_evacuate (hst : w.Alike h k) (ho : h.object? id = some o) (hp : p.site = o.site) :
    w.Ends h k (evacuate id p) (evacuate id (p.readdress w.carry)) := by
  obtain ⟨ht, hm, hx⟩ := hst
  have hlodges := (ht.objects id o ho).of_site hp
  have haddr : p.address = o.address := congrArg Prod.fst hp
  refine .update_bind rfl (ht.alike_setObject hm hx ho hlodges haddr) fun h' k' hset hst => ?_
  refine (meets_reserve hst _).bind fun a a' h'' k'' hrun haa hst => ?_
  obtain ⟨ha, rfl⟩ := haa
  -- the object is still there when its storage has been found
  have hobjects := (frame_reserve hlodges.words hrun).1
  have ho'' : h''.object? id = some p := by
    rw [object?, hobjects, hset]
    show (h.setObject id p).object? id = some p
    rw [object?_setObject (object?_lt ho), if_pos rfl]
  refine .update (alike_relocate hst ho'' ha) ?_
  rfl

theorem alike_reclaim (hst : w.Alike h k) (ho : h.object? id = some o) :
    w.Alike (h.reclaim id o) (k.reclaim id (o.readdress w.carry)) := by
  obtain @⟨m, x, ht, hm, hx⟩ := hst
  have himage : (w.image h m x).reclaim id (o.readdress w.carry) =
      w.image (h.reclaim id o) m (x.erase (w.carry o.address)) := by
    simp only [reclaim, image, List.map_set]
    rfl
  rw [himage]
  exact ⟨ht.reclaim ho, hm, hx.erase ht.known (ht.objects id o ho).known⟩

/-- The same is decided about an object. -/
theorem agrees_settle (hst : w.Alike h k) (id : Nat) (t : Tally) :
    w.Agrees h k (settle id t) (settle id t) := by
  refine .read_bind ?_
  obtain @⟨m, x, ht, hm, hx⟩ := hst
  rw [object?_image]
  cases ho : h.object? id with
  | none => exact .pure ⟨ht, hm, hx⟩ rfl
  | some o =>
    have hst : w.Alike h (w.image h m x) := ⟨ht, hm, hx⟩
    refine .ite Iff.rfl (fun _ => ?_) fun _ => .ite Iff.rfl (fun _ => ?_) fun _ => ?_
    · exact .update_bind rfl (alike_reclaim hst ho) fun _ _ _ hst => .pure hst rfl
    · refine (ends_hold (p := { o with marked := false }) hst ho rfl).bind ?_
      exact fun _ _ _ _ _ _ hst => .pure hst rfl
    · refine (ends_evacuate (p := { o with marked := false }) hst ho rfl).bind ?_
      exact fun _ _ _ _ _ _ hst => .pure hst rfl

theorem agrees_settleAll (hst : w.Alike h k) (ids : List Nat) (t : Tally) :
    w.Agrees h k (settleAll ids t) (settleAll ids t) := by
  induction ids generalizing h k t with
  | nil => exact .pure hst rfl
  | cons id ids ih =>
    refine (agrees_settle hst id t).bind fun t' t'' h' k' _ heq hst => ?_
    subst heq
    exact ih hst t''

/-! ## Whole collections -/

theorem alike_retire {bs : List Bucket} (hst : w.Alike h k) (hbs : ∀ b ∈ bs, w.Lies b) :
    w.Alike (h.retire bs) (k.retire (bs.map (Bucket.readdress w.carry))) := by
  obtain @⟨m, x, ht, hm, hx⟩ := hst
  have himage : (w.image h m x).retire (bs.map (Bucket.readdress w.carry)) =
      w.image (h.retire bs) m x := by
    simp only [retire, image, List.map_append, List.map_map]
    rfl
  rw [himage]
  refine ⟨ht.congr rfl (fun c hc => ?_) rfl rfl rfl, hm, hx⟩
  simp only [allBuckets, retire, List.mem_append, List.mem_map] at hc
  rcases hc with hc | hc | ⟨b, hb, rfl⟩
  · exact ht.buckets c (List.mem_append_left _ hc)
  · exact ht.buckets c (List.mem_append_right _ hc)
  · exact ⟨(hbs b hb).size, (hbs b hb).start, Nat.zero_le _⟩

theorem ends_raiseTarget (hst : w.Alike h k) : w.Ends h k raiseTarget raiseTarget := by
  obtain ⟨ht, hm, hx⟩ := hst
  refine .read_bind (.ofExcept_bind ⟨ht, hm, hx⟩ (fun e he => Word.mul_fault he _) fun n _ => ?_)
  exact .update ⟨ht.congr rfl ht.buckets rfl rfl rfl, hm, hx⟩ rfl

theorem ends_tabulate (hst : w.Alike h k) (report : Report) :
    w.Ends h k (tabulate report) (tabulate report) := by
  obtain @⟨m, x, ht, hm, hx⟩ := hst
  refine .read_bind (.ite Iff.rfl (fun _ => ?_) fun _ => .pure ⟨ht, hm, hx⟩ trivial)
  refine .note_bind rfl rfl (.note ⟨ht, hm, hx⟩ ?_ rfl)
  rw [length_buckets_image, length_spare_image]
  rfl

/-- The same collection is made, and the same report given. -/
theorem agrees_collectNow (hst : w.Alike h k) : w.Agrees h k collectNow collectNow := by
  refine .read_bind (.update_bind rfl (alike_prepare hst) fun h' k' _ hst' => ?_)
  obtain @⟨m, x, ht, hm, hx⟩ := hst
  have hlength : (w.image h m x).objects.length = h.objects.length := List.length_map _
  rw [hlength]
  refine (agrees_settleAll hst' _ _).bind fun t t' h' k' _ heq hst' => ?_
  subst heq
  have hlies : ∀ b ∈ h.unpinnedBuckets, w.Lies b := fun b hb => ht.lies (List.mem_of_mem_filter hb)
  rw [unpinnedBuckets_image ht, pinnedBuckets_image ht, List.length_map]
  refine .update_bind rfl (alike_retire hst' hlies) fun h' k' _ hst' => ?_
  refine (ends_raiseTarget hst').bind fun _ _ h' k' _ _ hst' => .read_bind ?_
  obtain ⟨ht', hm', hx'⟩ := hst'
  exact (ends_tabulate ⟨ht', hm', hx'⟩ _).bind fun _ _ _ _ _ _ hst' => .pure hst' rfl

theorem agrees_collect (hst : w.Alike h k) : w.Agrees h k collect collect := by
  obtain ⟨ht, hm, hx⟩ := hst
  refine .read_bind (.ite Iff.rfl (fun _ => ?_) fun _ => ?_)
  · refine .update_bind rfl ⟨ht.congr rfl ht.buckets rfl rfl rfl, hm, hx⟩ fun _ _ _ hst => ?_
    exact .note_bind rfl rfl (.pure hst rfl)
  · exact (agrees_collectNow ⟨ht, hm, hx⟩).bind fun r r' _ _ _ heq hst => .pure hst (by rw [heq])

theorem agrees_collectIfWanted (hst : w.Alike h k) :
    w.Agrees h k collectIfWanted collectIfWanted := by
  obtain ⟨ht, hm, hx⟩ := hst
  exact .read_bind (.ite Iff.rfl (fun _ => agrees_collect ⟨ht, hm, hx⟩)
    fun _ => .pure ⟨ht, hm, hx⟩ rfl)

/-! ## Calls -/

/-- The addresses in a call have a meaning under either placement, and what comes from outside
stays in one block. -/
def Means (w : Placements) : Call → Prop
  | .retain a | .unretain a | .isRetained a => w.Known a
  | .poke a bytes => w.Spans a bytes.length
  | _ => True

/-- A call and the call about the same addresses under the other placement do the same. -/
theorem meets_call {c : Call} (hst : w.Alike h k) (hc : w.Means c) :
    w.heaps.Meets (fun r s => s = r.readdress w.carry) h k c.run (c.readdress w.carry).run := by
  cases c with
  | allocate len =>
    exact (agrees_allocate hst len).bind fun _ _ _ _ _ heq hst => .pure hst (by rw [heq]; rfl)
  | addressOf id =>
    exact (meets_addressOf hst id).bind fun _ _ _ _ _ heq hst => .pure hst (by rw [heq.2]; rfl)
  | write id offset bytes =>
    exact (ends_writeAt hst id offset bytes).bind fun _ _ _ _ _ _ hst => .pure hst rfl
  | read id =>
    exact (agrees_contentOf hst id).bind fun _ _ _ _ _ heq hst => .pure hst (by rw [heq]; rfl)
  | unroot id => exact (ends_unroot hst id).bind fun _ _ _ _ _ _ hst => .pure hst rfl
  | retain a => exact (ends_retain hst hc).bind fun _ _ _ _ _ _ hst => .pure hst rfl
  | unretain a => exact (ends_unretain hst hc).bind fun _ _ _ _ _ _ hst => .pure hst rfl
  | isRetained a =>
    exact (agrees_isRetained hst hc).bind fun _ _ _ _ _ heq hst => .pure hst (by rw [heq]; rfl)
  | inhibit id =>
    exact (meets_inhibit hst id).bind fun _ _ _ _ _ heq hst => .pure hst (by rw [heq.2]; rfl)
  | allow => exact (ends_allow hst).bind fun _ _ _ _ _ _ hst => .pure hst rfl
  | collect =>
    exact (agrees_collect hst).bind fun _ _ _ _ _ heq hst => .pure hst (by rw [heq]; rfl)
  | collectIfWanted =>
    exact (agrees_collectIfWanted hst).bind fun _ _ _ _ _ heq hst => .pure hst (by rw [heq]; rfl)
  | poke a bytes => exact (ends_poke hst hc).bind fun _ _ _ _ _ _ hst => .pure hst rfl

end PinnedHeap.Heap.Placements
