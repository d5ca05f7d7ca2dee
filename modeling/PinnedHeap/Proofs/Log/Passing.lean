import PinnedHeap.Log.Logger

/-!
# Which events pass

The filter looks at every field of an event but takes notice only of those that
are named `threshold`. What it decides about an event with at most one of them
is said by `Event.Filtered`: when it breaks off and with what, when the event
is shown and when it is not, and on what that does not depend.
-/

namespace PinnedHeap.Log

/-- The integer of at most 64 bits that a value is, if it is one. -/
def Value.integer? : Value → Option Int
  | signed n => some n
  | unsigned n => some n
  | _ => none

/-- How a value fails to be a threshold. -/
def Value.blame (v : Value) : Fault :=
  match v.integer? with
  | some n => .thresholdOutOfRange n
  | none => .thresholdNotInteger v.render

/-- The values of the fields that are named `threshold`, in their order. -/
def Event.thresholds (e : Event) : List Value :=
  (e.fields.filter fun f => f.name = "threshold").map Field.value

/-! ## One value -/

namespace Value

variable {v : Value} {n : Nat}

theorem asThreshold_eq_ok : v.asThreshold = .ok n ↔ v.integer? = some (n : Int) ∧ n ≤ 255 := by
  have hg : Threshold.greatest = 255 := rfl
  cases v with
  | signed m =>
    by_cases hm : 0 ≤ m ∧ m ≤ Threshold.greatest
    · simp only [asThreshold, if_pos hm, integer?, Except.ok.injEq, Option.some.injEq]
      omega
    · simp only [asThreshold, if_neg hm, integer?, reduceCtorEq, Option.some.injEq, false_iff]
      omega
  | unsigned m =>
    by_cases hm : m ≤ Threshold.greatest
    · simp only [asThreshold, if_pos hm, integer?, Except.ok.injEq, Option.some.injEq]
      omega
    · simp only [asThreshold, if_neg hm, integer?, reduceCtorEq, Option.some.injEq, false_iff]
      omega
  | _ => simp [asThreshold, integer?]

theorem asThreshold_of_not (h : ∀ n, v.integer? = some n → ¬ (0 ≤ n ∧ n ≤ 255)) :
    v.asThreshold = .error v.blame := by
  cases v with
  | signed n => exact if_neg (h n rfl)
  | unsigned n => exact if_neg fun hn => h n rfl (by simp [Threshold.greatest] at hn; omega)
  | _ => rfl

end Value

/-! ## The fields, one after the other -/

namespace Event

variable {e e' : Event} {v : Value} {g g' : Nat}

/-- A field that is not named `threshold` is passed over. -/
theorem thresholdAmong_filter (found : Option Nat) (fs : List Field) :
    thresholdAmong found (fs.filter fun f => f.name = "threshold") = thresholdAmong found fs := by
  induction fs generalizing found with
  | nil => rfl
  | cons f fs ih =>
    by_cases hf : f.name = "threshold"
    · rw [List.filter_cons_of_pos (by simpa using hf)]
      simp only [thresholdAmong, hf, if_true]
      cases f.value.asThreshold with
      | error => rfl
      | ok t => exact ih (some t)
    · rw [List.filter_cons_of_neg (by simpa using hf)]
      simp only [thresholdAmong, hf, if_false]
      exact ih found

theorem passes_congr
    (h : (e'.fields.filter fun f => f.name = "threshold") =
      e.fields.filter fun f => f.name = "threshold") :
    e'.passes g = e.passes g := by
  simp only [passes, threshold?]
  rw [← thresholdAmong_filter none e'.fields, h, thresholdAmong_filter]

theorem passes_of_thresholds_nil (h : e.thresholds = []) : e.passes g = .ok true := by
  have hnone := List.map_eq_nil_iff.1 h
  simp only [passes, threshold?]
  rw [← thresholdAmong_filter, hnone]
  rfl

theorem passes_of_thresholds_singleton (h : e.thresholds = [v]) :
    e.passes g = v.asThreshold.map fun t => decide (t ≤ g) := by
  obtain ⟨f, hf, rfl⟩ := List.map_eq_singleton_iff.1 h
  have hname : f.name = "threshold" := by
    have hmem : f ∈ e.fields.filter fun f => f.name = "threshold" := hf ▸ List.mem_singleton_self f
    simpa using (List.mem_filter.1 hmem).2
  simp only [passes, threshold?]
  rw [← thresholdAmong_filter, hf]
  simp only [thresholdAmong, hname, if_true]
  cases f.value.asThreshold <;> rfl

/-- What the filter decides about an event. -/
structure Filtered (e : Event) : Prop where
  /-- It breaks off exactly at a threshold that is no integer of at most 64 bits, or one outside
  of 0 to 255. -/
  breaks_iff : ∀ g, (∃ fault, e.passes g = .error fault) ↔
    ∃ v ∈ e.thresholds, ∀ n, v.integer? = some n → ¬ (0 ≤ n ∧ n ≤ 255)
  blames : ∀ g, ∀ v ∈ e.thresholds, (∀ n, v.integer? = some n → ¬ (0 ≤ n ∧ n ≤ 255)) →
    e.passes g = .error v.blame
  shown_iff : ∀ g, e.passes g = .ok true ↔
    e.thresholds = [] ∨
      ∃ v ∈ e.thresholds, ∃ n : Nat, v.integer? = some (n : Int) ∧ n ≤ 255 ∧ n ≤ g
  hidden_iff : ∀ g, e.passes g = .ok false ↔
    ∃ v ∈ e.thresholds, ∃ n : Nat, v.integer? = some (n : Int) ∧ n ≤ 255 ∧ g < n
  /-- The other fields do not matter, nor does the level. -/
  alone : ∀ e' : Event, (e'.fields.filter fun f => f.name = "threshold") =
    (e.fields.filter fun f => f.name = "threshold") → ∀ g, e'.passes g = e.passes g
  monotone : ∀ g g', g ≤ g' → e.passes g = .ok true → e.passes g' = .ok true

theorem filtered_of_nil (h : e.thresholds = []) : e.Filtered where
  breaks_iff g := by simp [passes_of_thresholds_nil h, h]
  blames g v hv := by simp [h] at hv
  shown_iff g := by simp [passes_of_thresholds_nil h, h]
  hidden_iff g := by simp [passes_of_thresholds_nil h, h]
  alone e' he' g := passes_congr he'
  monotone g g' _ _ := passes_of_thresholds_nil h

/-- The one threshold is a level. -/
theorem filtered_of_level {n : Nat} (h : e.thresholds = [v]) (hn : v.integer? = some (n : Int))
    (hle : n ≤ 255) : e.Filtered := by
  have hok (g : Nat) : e.passes g = .ok (decide (n ≤ g)) := by
    rw [passes_of_thresholds_singleton h, Value.asThreshold_eq_ok.2 ⟨hn, hle⟩]
    rfl
  have hval (P : Nat → Prop) :
      (∃ m : Nat, v.integer? = some (m : Int) ∧ m ≤ 255 ∧ P m) ↔ P n := by
    constructor
    · rintro ⟨m, hm, -, hp⟩
      rw [hn, Option.some.injEq, Int.natCast_inj] at hm
      exact hm ▸ hp
    · exact fun hp => ⟨n, hn, hle, hp⟩
  exact {
    breaks_iff := fun g => by simp [hok, h, hn]; omega
    blames := fun g w hw hno => by
      rw [h, List.mem_singleton] at hw
      subst hw
      exact absurd ⟨by omega, by omega⟩ (hno n hn)
    shown_iff := fun g => by simp [hok, h, hval]
    hidden_iff := fun g => by simp [hok, h, hval]
    alone := fun e' he' g => passes_congr he'
    monotone := fun g g' hg => by
      simp only [hok, Except.ok.injEq, decide_eq_true_eq]
      omega }

/-- The one threshold is none. -/
theorem filtered_of_not_level (h : e.thresholds = [v])
    (hno : ∀ n, v.integer? = some n → ¬ (0 ≤ n ∧ n ≤ 255)) : e.Filtered := by
  have herror (g : Nat) : e.passes g = .error v.blame := by
    rw [passes_of_thresholds_singleton h, Value.asThreshold_of_not hno]
    rfl
  have hnone (n : Nat) : ¬ (v.integer? = some (n : Int) ∧ n ≤ 255) :=
    fun hn => hno n hn.1 ⟨by omega, by omega⟩
  exact {
    breaks_iff := fun g => by
      simp only [herror, h, List.mem_singleton, exists_eq_left]
      exact ⟨fun _ => hno, fun _ => ⟨_, rfl⟩⟩
    blames := fun g w hw _ => by
      rw [h, List.mem_singleton] at hw
      rw [hw, herror]
    shown_iff := fun g => by
      simp only [herror, h, List.mem_singleton, exists_eq_left]
      exact ⟨nofun, fun hs => hs.elim nofun fun ⟨n, hn, hle, _⟩ => absurd ⟨hn, hle⟩ (hnone n)⟩
    hidden_iff := fun g => by
      simp only [herror, h, List.mem_singleton, exists_eq_left]
      exact ⟨nofun, fun ⟨n, hn, hle, _⟩ => absurd ⟨hn, hle⟩ (hnone n)⟩
    alone := fun e' he' g => passes_congr he'
    monotone := fun g g' _ hg => by simp [herror] at hg }

theorem filtered_of_singleton (h : e.thresholds = [v]) : e.Filtered := by
  by_cases hlevel : ∃ n, v.integer? = some n ∧ 0 ≤ n ∧ n ≤ 255
  · obtain ⟨n, hn, h0, hle⟩ := hlevel
    obtain ⟨n, rfl⟩ := Int.eq_ofNat_of_zero_le h0
    exact filtered_of_level h hn (by omega)
  · exact filtered_of_not_level h fun n hn hr => hlevel ⟨n, hn, hr⟩

/-- Whatever the fields of an event are and however they are ordered, as long as at most one of
them is named `threshold`: that one alone decides. -/
theorem filtered (h : e.thresholds.length ≤ 1) : e.Filtered := by
  match hts : e.thresholds with
  | [] => exact filtered_of_nil hts
  | [_] => exact filtered_of_singleton hts
  | _ :: _ :: _ => simp [hts] at h

/-- An event whose threshold stands between other fields, one of which is called by the name in
capitals. -/
def buried : Event :=
  ⟨.warn, [⟨"critical", .flag true⟩, ⟨"Threshold", .text "9"⟩, ⟨"threshold", .unsigned 200⟩,
    ⟨"message", .shown "m"⟩, ⟨"count", .wide (-1)⟩]⟩

theorem buried_filtered :
    buried.thresholds.length ≤ 1 ∧ buried.Filtered ∧ buried.passes 199 = .ok false ∧
      buried.passes 200 = .ok true :=
  ⟨by decide, filtered (by decide), rfl, rfl⟩

end Event

end PinnedHeap.Log
