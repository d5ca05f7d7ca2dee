import PinnedHeap.Log.Logger

/-!
# What is written for an event

An event is written field by field, each one where it stands. `Event.layout` is
the text with the critical mark in front of everything, then the message, then
the other fields. The two are the same for an event whose fields stand in this
order, `Event.InOrder`, wherever its threshold is; with a message that cannot
be taken for a mark or a field they are the same for no other event.
-/

namespace PinnedHeap.Log

namespace Field

/-- The truth value of a critical flag. -/
def mark? (f : Field) : Option Bool :=
  if f.name = "critical" then
    match f.value with
    | .flag b => some b
    | _ => none
  else none

/-- Where a field stands in the layout: the critical mark in front, then the message, then all
other fields. The threshold and a critical flag that is not set are not shown. -/
def rank? (f : Field) : Option Nat :=
  if f.name = "threshold" then none
  else if f.name = "message" then some 1
  else
    match f.mark? with
    | some true => some 0
    | some false => none
    | none => some 2

end Field

namespace Event

/-- Is the event marked as critical? -/
def Marked (e : Event) : Prop := true ∈ e.fields.filterMap Field.mark?

instance (e : Event) : Decidable e.Marked := inferInstanceAs (Decidable (_ ∈ _))

/-- The fields that are neither message nor threshold nor a critical flag. -/
def others (e : Event) : List Field := e.fields.filter fun f => f.rank? = some 2

/-- The mark, the message, and the other fields in their order. -/
def layout (e : Event) (message : String) : String :=
  (if e.Marked then "[CRITICAL] " else "") ++ message ++
    String.join (e.others.map fun f => " " ++ f.name ++ "=" ++ f.value.render)

/-- The fields that are shown stand in the order of the layout. -/
def InOrder (e : Event) : Prop := (e.fields.filterMap Field.rank?).Pairwise (· ≤ ·)

instance (e : Event) : Decidable e.InOrder := inferInstanceAs (Decidable (List.Pairwise _ _))

/-- One message, that was formatted from arguments, at most one threshold and at most one
critical flag. -/
structure Regular (e : Event) (message : String) : Prop where
  message : e.fields.filter (fun f => f.name = "message") = [⟨"message", .shown message⟩]
  threshold : (e.fields.filter fun f => f.name = "threshold").length ≤ 1
  mark : (e.fields.filterMap Field.mark?).length ≤ 1

end Event

/-! ## What one field writes -/

namespace Field

variable {f : Field}

theorem render_eq (f : Field) :
    f.render =
      match f.mark? with
      | some b => if b then "[CRITICAL] " else ""
      | none => f.renderNamed := by
  obtain ⟨name, value⟩ := f
  by_cases hn : name = "critical"
  · subst hn
    cases value <;> rfl
  · cases value <;> simp [render, mark?, hn]

/-- Where a field stands says what it is and what is written for it. -/
theorem rank?_cases (f : Field) :
    (f.rank? = none ∧ f.mark? ≠ some true ∧ f.name ≠ "message" ∧ f.render = "") ∨
    (f.rank? = some 0 ∧ f.mark? = some true ∧ f.name ≠ "message" ∧ f.render = "[CRITICAL] ") ∨
    (f.rank? = some 1 ∧ f.mark? ≠ some true ∧ f.name = "message" ∧
      f.render = f.value.render) ∨
    (f.rank? = some 2 ∧ f.mark? ≠ some true ∧ f.name ≠ "message" ∧
      f.render = " " ++ f.name ++ "=" ++ f.value.render) := by
  rw [render_eq]
  by_cases hc : f.name = "critical"
  · cases hb : f.mark? with
    | some b => cases b <;> simp [rank?, hc, hb]
    | none => simp [rank?, renderNamed, hc, hb]
  · have hb : f.mark? = none := if_neg hc
    by_cases ht : f.name = "threshold"
    · simp [rank?, renderNamed, ht, hb]
    · by_cases hm : f.name = "message"
      · simp [rank?, renderNamed, hm, hb]
      · simp [rank?, renderNamed, ht, hm, hb]

theorem render_of_rank_none (h : f.rank? = none) : f.render = "" := by
  have := f.rank?_cases
  simp_all

theorem render_of_rank_zero (h : f.rank? = some 0) : f.render = "[CRITICAL] " := by
  have := f.rank?_cases
  simp_all

theorem render_of_rank_two (h : f.rank? = some 2) :
    f.render = " " ++ f.name ++ "=" ++ f.value.render := by
  have := f.rank?_cases
  simp_all

theorem rank?_eq_zero_iff : f.rank? = some 0 ↔ f.mark? = some true := by
  rcases f.rank?_cases with h | h | h | h <;> simp [h]

theorem rank?_eq_one_iff : f.rank? = some 1 ↔ f.name = "message" := by
  rcases f.rank?_cases with h | h | h | h <;> simp [h]

theorem rank?_le_two {n : Nat} (h : f.rank? = some n) : n ≤ 2 := by
  rcases f.rank?_cases with h' | h' | h' | h' <;> rw [h'.1] at h <;> simp at h <;> omega

end Field

/-! ## Fields one after the other -/

section Fields

variable {f : Field} {fs : List Field} {message : String} {c : Char}

/-- What is written for fields, each where it stands. -/
def written (fs : List Field) : String := String.join (fs.map Field.render)

/-- The fields that belong in one place of the layout. -/
def ofRank (n : Nat) (fs : List Field) : List Field := fs.filter fun f => f.rank? = some n

@[simp] theorem written_nil : written [] = "" := rfl

@[simp] theorem written_cons : written (f :: fs) = f.render ++ written fs := by
  simp [written]

theorem ofRank_cons_of_eq {n : Nat} (h : f.rank? = some n) :
    ofRank n (f :: fs) = f :: ofRank n fs :=
  List.filter_cons_of_pos (by simpa using h)

theorem ofRank_cons_of_ne {n : Nat} (h : f.rank? ≠ some n) :
    ofRank n (f :: fs) = ofRank n fs :=
  List.filter_cons_of_neg (by simpa using h)

theorem ofRank_eq_nil {n : Nat} (h : ∀ f ∈ fs, f.rank? ≠ some n) : ofRank n fs = [] :=
  List.filter_eq_nil_iff.2 fun f hf => by simpa using h f hf

/-- A field that is not shown can be left out. -/
theorem written_filter (fs : List Field) :
    written (fs.filter fun f => f.rank?.isSome) = written fs := by
  induction fs with
  | nil => rfl
  | cons f fs ih =>
    cases hf : f.rank? with
    | none => rw [List.filter_cons_of_neg (by simp [hf]), written_cons,
        Field.render_of_rank_none hf, ih, String.empty_append]
    | some n => rw [List.filter_cons_of_pos (by simp [hf]), written_cons, written_cons, ih]

theorem written_of_pairwise (h : (fs.filterMap Field.rank?).Pairwise (· ≤ ·)) :
    written fs = written (ofRank 0 fs) ++ written (ofRank 1 fs) ++ written (ofRank 2 fs) := by
  induction fs with
  | nil => rfl
  | cons f fs ih =>
    cases hf : f.rank? with
    | none =>
      rw [List.filterMap_cons_none hf] at h
      simp only [written_cons, Field.render_of_rank_none hf, String.empty_append, ih h]
      simp [ofRank_cons_of_ne, hf]
    | some n =>
      rw [List.filterMap_cons_some hf] at h
      obtain ⟨hle, hrest⟩ := List.pairwise_cons.1 h
      have ih := ih hrest
      -- what belongs before this field does not stand behind it
      have hnone (k : Nat) (hk : k < n) : ofRank k fs = [] :=
        ofRank_eq_nil fun g hg hgk =>
          absurd (hle k (List.mem_filterMap.2 ⟨g, hg, hgk⟩)) (Nat.not_le.2 hk)
      have hn : n = 0 ∨ n = 1 ∨ n = 2 := by
        have := Field.rank?_le_two hf
        omega
      rcases hn with rfl | rfl | rfl
      · simp [ofRank_cons_of_eq, ofRank_cons_of_ne, hf, ih, String.append_assoc]
      · simp [ofRank_cons_of_eq, ofRank_cons_of_ne, hf, ih, hnone 0, String.append_assoc]
      · simp [ofRank_cons_of_eq, ofRank_cons_of_ne, hf, ih, hnone 0, hnone 1]

theorem pairwise_of_others (h : ∀ f ∈ fs, f.rank? ≠ some 0 ∧ f.rank? ≠ some 1) :
    (fs.filterMap Field.rank?).Pairwise (· ≤ ·) := by
  refine List.pairwise_iff_forall_sublist.2 fun {a b} hab => ?_
  have htwo (n : Nat) (hn : n ∈ [a, b]) : n = 2 := by
    obtain ⟨f, hf, hrank⟩ := List.mem_filterMap.1 (hab.subset hn)
    have hle := Field.rank?_le_two hrank
    have hne := h f hf
    rw [hrank] at hne
    simp only [ne_eq, Option.some.injEq] at hne
    omega
  exact Nat.le_of_eq ((htwo a (by simp)).trans (htwo b (by simp)).symm)

/-- Without a mark, a text that does not start with a space starts with the message. -/
theorem pairwise_of_head (hmark : ∀ f ∈ fs, f.mark? ≠ some true)
    (hone : (fs.filter fun f => f.name = "message").length ≤ 1) (hc : c ≠ ' ')
    (hhead : (written fs).toList.head? = some c) :
    (fs.filterMap Field.rank?).Pairwise (· ≤ ·) := by
  induction fs with
  | nil => exact .nil
  | cons f fs ih =>
    obtain ⟨hf, hmark⟩ := List.forall_mem_cons.1 hmark
    rw [written_cons] at hhead
    rcases f.rank?_cases with
      ⟨hrank, -, hname, htext⟩ | ⟨-, htrue, -, -⟩ | ⟨hrank, -, hname, -⟩ | ⟨-, -, -, htext⟩
    · rw [List.filterMap_cons_none hrank]
      rw [List.filter_cons_of_neg (by simpa using hname)] at hone
      exact ih hmark hone (by simpa [htext] using hhead)
    · exact absurd htrue hf
    · rw [List.filter_cons_of_pos (by simpa using hname), List.length_cons] at hone
      have hnil := List.filter_eq_nil_iff.1
        (List.eq_nil_of_length_eq_zero (Nat.le_zero.1 (Nat.le_of_succ_le_succ hone)))
      rw [List.filterMap_cons_some hrank]
      have hrest (g : Field) (hg : g ∈ fs) : g.rank? ≠ some 0 ∧ g.rank? ≠ some 1 :=
        ⟨fun h => hmark g hg (Field.rank?_eq_zero_iff.1 h),
          fun h => hnil g hg (by simpa using Field.rank?_eq_one_iff.1 h)⟩
      refine List.pairwise_cons.2 ⟨fun n hn => ?_, pairwise_of_others hrest⟩
      obtain ⟨g, hg, hgn⟩ := List.mem_filterMap.1 hn
      rcases Nat.eq_zero_or_pos n with rfl | hpos
      · exact absurd hgn (hrest g hg).1
      · exact hpos
    · simp [htext] at hhead
      exact absurd hhead.symm hc

/-- A text that starts with the mark, and goes on with the message. -/
theorem pairwise_of_mark (hmark : (fs.filterMap Field.mark?).length ≤ 1)
    (hone : (fs.filter fun f => f.name = "message").length ≤ 1)
    (hmessage : ∀ f ∈ fs, f.name = "message" → f.value.render.toList.head? = some c)
    (hspace : c ≠ ' ') (hbracket : c ≠ '[') {t : String} (ht : t.toList.head? = some c)
    (htext : written fs = "[CRITICAL] " ++ t) :
    (fs.filterMap Field.rank?).Pairwise (· ≤ ·) := by
  induction fs with
  | nil => exact .nil
  | cons f fs ih =>
    obtain ⟨hf, hmessage⟩ := List.forall_mem_cons.1 hmessage
    rw [written_cons] at htext
    rcases f.rank?_cases with
      ⟨hrank, hmark', hname, hwrite⟩ | ⟨hrank, htrue, hname, hwrite⟩ | ⟨-, -, hname, hwrite⟩ |
        ⟨-, -, -, hwrite⟩
    · rw [List.filterMap_cons_none hrank]
      rw [List.filter_cons_of_neg (by simpa using hname)] at hone
      have hlen : (fs.filterMap Field.mark?).length ≤ 1 :=
        Nat.le_trans (List.Sublist.length_le ((List.sublist_cons_self f fs).filterMap _)) hmark
      exact ih hlen hone hmessage (by simpa [hwrite] using htext)
    · rw [List.filterMap_cons_some htrue, List.length_cons] at hmark
      have hnil := List.filterMap_eq_nil_iff.1
        (List.eq_nil_of_length_eq_zero (Nat.le_zero.1 (Nat.le_of_succ_le_succ hmark)))
      rw [List.filter_cons_of_neg (by simpa using hname)] at hone
      have hrest : written fs = t := by simpa [hwrite, ← String.toList_inj] using htext
      rw [List.filterMap_cons_some hrank]
      refine List.pairwise_cons.2 ⟨fun n _ => Nat.zero_le n, ?_⟩
      exact pairwise_of_head (fun g hg => by simp [hnil g hg]) hone hspace (hrest ▸ ht)
    · have hhead := congrArg (fun s => s.toList.head?) htext
      simp [hwrite, hf hname] at hhead
      exact absurd hhead hbracket
    · have hhead := congrArg (fun s => s.toList.head?) htext
      simp [hwrite] at hhead

end Fields

/-! ## Events -/

namespace Event

variable {e e' : Event} {m : String}

theorem Regular.value (h : e.Regular m) {f : Field} (hf : f ∈ e.fields)
    (hn : f.name = "message") : f.value = .shown m := by
  have hmem : f ∈ e.fields.filter fun f => f.name = "message" :=
    List.mem_filter.2 ⟨hf, by simpa using hn⟩
  rw [h.message, List.mem_singleton] at hmem
  rw [hmem]

theorem Regular.written_message (h : e.Regular m) : written (ofRank 1 e.fields) = m := by
  have hsame : ofRank 1 e.fields = e.fields.filter fun f => f.name = "message" :=
    List.filter_congr fun f _ => by simp [Field.rank?_eq_one_iff]
  rw [hsame, h.message, written_cons, written_nil, String.append_empty]
  rfl

theorem Regular.written_mark (h : e.Regular m) :
    written (ofRank 0 e.fields) = if e.Marked then "[CRITICAL] " else "" := by
  have hlen : (ofRank 0 e.fields).length ≤ 1 := by
    refine Nat.le_trans ?_ h.mark
    rw [List.length_filterMap_eq_countP, ofRank, ← List.countP_eq_length_filter]
    refine List.countP_mono_left fun f _ hf => ?_
    rw [Field.rank?_eq_zero_iff.1 (by simpa using hf)]
    rfl
  have hmarked : e.Marked ↔ ∃ f, f ∈ ofRank 0 e.fields := by
    simp only [Marked, ofRank, List.mem_filterMap, List.mem_filter, decide_eq_true_eq,
      Field.rank?_eq_zero_iff]
  match hfs : ofRank 0 e.fields with
  | [] => simp [hmarked, hfs]
  | [f] =>
    have hf : f ∈ ofRank 0 e.fields := hfs ▸ List.mem_singleton_self f
    rw [if_pos (hmarked.2 ⟨f, hf⟩), written_cons, written_nil, String.append_empty,
      Field.render_of_rank_zero (by simpa using (List.mem_filter.1 hf).2)]
  | _ :: _ :: _ => simp [hfs] at hlen

theorem written_others (e : Event) :
    written (ofRank 2 e.fields) =
      String.join (e.others.map fun f => " " ++ f.name ++ "=" ++ f.value.render) := by
  refine congrArg String.join (List.map_congr_left fun f hf => ?_)
  exact Field.render_of_rank_two (by simpa using (List.mem_filter.1 hf).2)

theorem Regular.render_of_inOrder (h : e.Regular m) (ho : e.InOrder) : e.render = e.layout m := by
  have hsplit : e.render =
      written (ofRank 0 e.fields) ++ written (ofRank 1 e.fields) ++ written (ofRank 2 e.fields) :=
    written_of_pairwise ho
  rw [hsplit, h.written_mark, h.written_message, written_others, layout]

theorem Regular.inOrder_of_render (h : e.Regular m) {c : Char} (hm : m.toList.head? = some c)
    (hspace : c ≠ ' ') (hbracket : c ≠ '[') (hr : e.render = e.layout m) : e.InOrder := by
  have hone : (e.fields.filter fun f => f.name = "message").length ≤ 1 := by simp [h.message]
  have hmessage (f : Field) (hf : f ∈ e.fields) (hn : f.name = "message") :
      f.value.render.toList.head? = some c := by
    rw [h.value hf hn]
    exact hm
  have hne : m.toList ≠ [] := fun hnil => by simp [hnil] at hm
  rw [layout, ← written_others] at hr
  by_cases hmarked : e.Marked
  · rw [if_pos hmarked, String.append_assoc] at hr
    refine pairwise_of_mark h.mark hone hmessage hspace hbracket ?_ hr
    simp [List.head?_append, hm]
  · have hmark (f : Field) (hf : f ∈ e.fields) : f.mark? ≠ some true :=
      fun ht => hmarked (List.mem_filterMap.2 ⟨f, hf, ht⟩)
    rw [if_neg hmarked] at hr
    refine pairwise_of_head hmark hone hspace ?_
    show (e.render).toList.head? = some c
    simp [hr, List.head?_append, hm]

/-- What is written for an event with the message `m`. -/
structure Rendered (e : Event) (m : String) : Prop where
  /-- Every field is written where it stands. -/
  inPlace : e.render = String.join (e.fields.map fun f =>
    if f.mark? = some true then "[CRITICAL] "
    else if f.name = "message" then m
    else if f.rank? = some 2 then " " ++ f.name ++ "=" ++ f.value.render
    else "")
  /-- Where the threshold stands does not matter, nor does a critical flag that is not set. -/
  unseen : ∀ e' : Event, (e'.fields.filter fun f => f.rank?.isSome) =
    (e.fields.filter fun f => f.rank?.isSome) → e'.render = e.render
  laidOut : e.InOrder → e.render = e.layout m
  /-- No other order gives the layout, if the message can be told from a mark and from a field. -/
  onlyInOrder : ∀ c, m.toList.head? = some c → c ≠ ' ' → c ≠ '[' →
    (e.render = e.layout m ↔ e.InOrder)

/-- The text of an event with one message is laid out mark first, message next, other fields last
exactly if its fields are. -/
theorem Regular.rendered (h : e.Regular m) : e.Rendered m where
  inPlace := by
    refine congrArg String.join (List.map_congr_left fun f hf => ?_)
    rcases f.rank?_cases with
      ⟨hrank, hmark, hname, hwrite⟩ | ⟨hrank, hmark, hname, hwrite⟩ |
        ⟨hrank, hmark, hname, hwrite⟩ | ⟨hrank, hmark, hname, hwrite⟩
    · simp [hrank, hmark, hname, hwrite]
    · simp [hmark, hwrite]
    · rw [hwrite, h.value hf hname, if_neg hmark, if_pos hname]
      rfl
    · simp [hrank, hmark, hname, hwrite]
  unseen e' he' := by
    show written e'.fields = written e.fields
    rw [← written_filter, he', written_filter]
  laidOut := h.render_of_inOrder
  onlyInOrder c hm hspace hbracket :=
    ⟨h.inOrder_of_render hm hspace hbracket, h.render_of_inOrder⟩

/-- An event whose critical flag stands behind its message. -/
def late : Event :=
  ⟨.error, [⟨"threshold", .unsigned 0⟩, ⟨"message", .shown "m"⟩, ⟨"critical", .flag true⟩]⟩

/-- The mark stands behind the message, and not in front of everything. -/
theorem late_rendered :
    late.Regular "m" ∧ late.Rendered "m" ∧ ¬ late.InOrder ∧ late.render = "m[CRITICAL] " ∧
      late.layout "m" = "[CRITICAL] m" := by
  have hregular : late.Regular "m" := ⟨rfl, by decide, by decide⟩
  exact ⟨hregular, hregular.rendered, by decide, by decide, by decide⟩

end Event

end PinnedHeap.Log
