import RadioOccupancy.Proofs.BusyTable
import RadioOccupancy.Proofs.Reading
import RadioOccupancy.Proofs.Threshold

/-!
The keys of a busy table are texts, and they do not collide.

A key can be written as a text, from the texts of three numbers:

    start ":" stop "@" step

No number is written with a separator, so the text can be taken apart again (`Band.keyText_eq_iff`), and a
table that compares bands and steps number by number is the map from these texts to entries
(`BusyTable.find?_eq_lookUp`, `BusyTable.lookUp_put`). What energy on one key does is therefore nothing to
the others.
-/

namespace RadioOccupancy

namespace Band

/-- The text of the key for a band and a threshold step. -/
def keyText (b : Band) (step : Number) : String :=
  b.start.text ++ ":" ++ b.stop.text ++ "@" ++ step.text

theorem toList_keyText (b : Band) (step : Number) :
    (b.keyText step).toList =
      b.start.text.toList ++ ':' :: (b.stop.text.toList ++ '@' :: step.text.toList) := by
  simp [keyText]

theorem notMem_text {c : Char} (h : Decimal.isNumeral c = false) (x : Number) : c ∉ x.text.toList := by
  intro hc
  rw [Number.isNumeral_of_mem_text hc] at h
  cases h

/-- Equal key texts have equal parts. -/
theorem keyText_eq_iff (a b : Band) (s u : Number) :
    a.keyText s = b.keyText u ↔ a.sameKey b ∧ s.same u := by
  have hcolon (x : Number) : ':' ∉ x.text.toList := notMem_text rfl x
  have hat (x : Number) : '@' ∉ x.text.toList := notMem_text rfl x
  have hrest : ':' ∉ a.stop.text.toList ++ '@' :: s.text.toList := by
    simp [hcolon]
  rw [← String.toList_inj, toList_keyText, toList_keyText,
    List.append_cons_inj_of_notMem (hcolon _) hrest, List.append_cons_inj_of_notMem (hat _) (hat _),
    String.toList_inj, String.toList_inj, String.toList_inj, Number.text_eq_iff, Number.text_eq_iff,
    Number.text_eq_iff, sameKey, Bool.and_eq_true]
  tauto

example : keyText ⟨0, 63⟩ (-8200) = "0:63@-8200" := by decide +kernel

/-- The ends of a valid band are finite. -/
theorem isFinite_of_isValid {b : Band} (h : b.isValid) : b.start.isFinite ∧ b.stop.isFinite := by
  simp only [isValid, Bool.and_eq_true] at h
  exact ⟨Number.isFinite_of_isInteger h.1.1.1, Number.isFinite_of_isInteger h.1.1.2⟩

/-- Valid bands name the same key if their ends are equal. -/
theorem sameKey_iff_value {a b : Band} (ha : a.isValid) (hb : b.isValid) :
    a.sameKey b ↔ a.start.value = b.start.value ∧ a.stop.value = b.stop.value := by
  obtain ⟨hastart, hastop⟩ := isFinite_of_isValid ha
  obtain ⟨hbstart, hbstop⟩ := isFinite_of_isValid hb
  rw [sameKey, Bool.and_eq_true, Number.same_iff_value hastart hbstart, Number.same_iff_value hastop hbstop]

/-- The ends of two bands are equal, and so are two steps. -/
def SameAt (a : Band) (s : Number) (b : Band) (u : Number) : Prop :=
  a.start.value = b.start.value ∧ a.stop.value = b.stop.value ∧ s == u

end Band

/-- The text of the key that an entry is kept for. -/
def BusyEntry.keyText (e : BusyEntry) : String :=
  e.band.keyText e.step

theorem BusyEntry.isFor_eq (e : BusyEntry) (band : Band) (step : Number) :
    e.isFor band step = (e.keyText == band.keyText step) := by
  rw [Bool.eq_iff_iff, beq_iff_eq, keyText, Band.keyText_eq_iff, isFor, Bool.and_eq_true]

namespace BusyTable

/-! ### A table is a map from texts -/

/-- What is kept under a text. -/
def lookUp (t : BusyTable) (key : String) : Option BusyEntry :=
  t.entries.find? fun e => e.keyText == key

/-- To look for a band and a step is to look for their text. -/
theorem find?_eq_lookUp (t : BusyTable) (band : Band) (step : Number) :
    t.find? band step = t.lookUp (band.keyText step) := by
  rw [find?, lookUp]
  congr 1
  funext e
  exact e.isFor_eq band step

/-- To put an entry in is to keep it under its text, whatever else is kept. -/
theorem lookUp_put (t : BusyTable) (entry : BusyEntry) (key : String) :
    (t.put entry).lookUp key = if entry.keyText = key then some entry else t.lookUp key := by
  change (putIn entry t.entries).find? _ = ite _ _ (t.entries.find? _)
  induction t.entries with
  | nil => by_cases h : entry.keyText = key <;> simp [putIn, h]
  | cons e rest ih =>
    have hfor : e.isFor entry.band entry.step = (e.keyText == entry.keyText) := e.isFor_eq _ _
    rw [putIn, hfor]
    by_cases he : e.keyText = entry.keyText
    · -- the entry takes the place of one under its text
      by_cases h : entry.keyText = key <;> simp [he, h]
    · rw [if_neg (by simpa using he), List.find?_cons, List.find?_cons, ih]
      by_cases h : e.keyText = key
      · have hne : entry.keyText ≠ key := fun h' => he (h.trans h'.symm)
        simp [h, hne]
      · rw [beq_false_of_ne h]

/-- What is put in is found under one text only. -/
theorem keyText_eq_of_lookUp (resolution : Number) (entry : BusyEntry) {key : String}
    (h : (put ⟨resolution, []⟩ entry).lookUp entry.keyText = (put ⟨resolution, []⟩ entry).lookUp key) :
    entry.keyText = key := by
  rw [lookUp_put, if_pos rfl, lookUp_put] at h
  by_contra hne
  rw [if_neg hne] at h
  cases h

/-! ### What a detection leaves alone -/

/-- Putting an entry in leaves the entries under other texts where they are. -/
theorem filter_putIn (entry : BusyEntry) (entries : List BusyEntry) :
    (putIn entry entries).filter (fun e => e.keyText != entry.keyText) =
      entries.filter fun e => e.keyText != entry.keyText := by
  induction entries with
  | nil => simp [putIn]
  | cons e rest ih =>
    have hfor : e.isFor entry.band entry.step = (e.keyText == entry.keyText) := e.isFor_eq _ _
    rw [putIn, hfor]
    split
    · next he => simp [beq_iff_eq.1 he]
    · rw [List.filter_cons, List.filter_cons, ih]

theorem filter_detected (t : BusyTable) (band : Band) (step now duration : Number) :
    (t.detected band step now duration).entries.filter (fun e => e.keyText != band.keyText step) =
      t.entries.filter fun e => e.keyText != band.keyText step := by
  rw [detected]
  split
  · have hfor := isFor_beside t band step now duration
    rw [BusyEntry.isFor_eq, beq_iff_eq] at hfor
    rw [← hfor]
    exact filter_putIn _ _
  · rfl

theorem get_of_step {t : BusyTable} {threshold step : Number}
    (h : Threshold.step threshold t.resolution = .ok step) (band : Band) :
    t.get band threshold = .ok (t.lookUp (band.keyText step)) := by
  rw [get, h, ← find?_eq_lookUp]
  rfl

theorem detect_of_step {t : BusyTable} {threshold step : Number}
    (h : Threshold.step threshold t.resolution = .ok step) (band : Band) (now duration : Number) :
    t.detect band threshold now duration =
      .ok (detectionBeside (t.find? band step) band step now duration,
        t.detected band step now duration) := by
  rw [detect, detection, h]
  rfl

/-- A detection is kept under the text of its own key. -/
theorem lookUp_detected (t : BusyTable) (band : Band) (step now duration : Number) :
    (t.detected band step now duration).lookUp (band.keyText step) =
      some (detectionBeside (t.find? band step) band step now duration).entry := by
  have hself : (band.sameKey band && step.same step) = true := by
    rw [Bool.and_eq_true, ← Band.keyText_eq_iff]
  rw [← find?_eq_lookUp, find?_detected, if_pos hself]

/-- Keys do not collide: valid bands and finite thresholds share an entry exactly if the bands have equal ends
and the thresholds equal steps. Energy on one such pair is kept under its own key, and changes nothing that is
kept under another. -/
theorem detect_apart {resolution : Number} (hres : resolution.isFinite) (hpos : 0 < resolution) {a b : Band}
    (ha : a.isValid) (hb : b.isValid) {θ η : Number} (hθ : θ.isFinite) (hη : η.isFinite) :
    ∃ s u, Threshold.step θ resolution = .ok s ∧ Threshold.step η resolution = .ok u ∧
      (a.keyText s = b.keyText u ↔ a.SameAt s b u) ∧
      ((∀ t : BusyTable, t.resolution = resolution → t.get a θ = t.get b η) ↔ a.SameAt s b u) ∧
      ∀ t : BusyTable, t.resolution = resolution →
        t.get a θ = .ok (t.lookUp (a.keyText s)) ∧ t.get b η = .ok (t.lookUp (b.keyText u)) ∧
        ∀ now duration, ∃ found t', t.detect a θ now duration = .ok (found, t') ∧
          t'.lookUp (a.keyText s) = some found.entry ∧
          t'.entries.filter (fun e => e.keyText != a.keyText s) =
            t.entries.filter (fun e => e.keyText != a.keyText s) ∧
          (¬a.SameAt s b u →
            t'.get b η = t.get b η ∧ ∀ at', t'.isBusyAt b η at' = t.isBusyAt b η at') := by
  obtain ⟨s, hs, hsdef⟩ := Threshold.step_defined hθ hres hpos
  obtain ⟨u, hu, -⟩ := Threshold.step_defined hη hres hpos
  have hkey : a.keyText s = b.keyText u ↔ a.SameAt s b u := by
    rw [Band.keyText_eq_iff, Band.sameKey_iff_value ha hb, Number.same_eq_beq hsdef, Band.SameAt, and_assoc]
  refine ⟨s, u, hs, hu, hkey, ⟨fun h => hkey.1 ?_, fun h t ht => ?_⟩, ?_⟩
  · -- a table with an entry for the one key shows whether it is the other key as well
    let entry : BusyEntry := ⟨a, s, θ, θ⟩
    let t : BusyTable := put ⟨resolution, []⟩ entry
    have hget := h t rfl
    rw [get_of_step (t := t) hs, get_of_step (t := t) hu] at hget
    exact keyText_eq_of_lookUp resolution entry (Except.ok.inj hget)
  · subst ht
    rw [get_of_step hs, get_of_step hu, hkey.2 h]
  · rintro t rfl
    refine ⟨get_of_step hs a, get_of_step hu b, fun now duration =>
      ⟨_, t.detected a s now duration, detect_of_step hs a now duration, lookUp_detected t a s now duration,
        filter_detected t a s now duration, fun hne => ?_⟩⟩
    have hu' : Threshold.step η (t.detected a s now duration).resolution = .ok u := by
      rw [resolution_detected, hu]
    have hget : (t.detected a s now duration).get b η = t.get b η := by
      rw [get_of_step hu', get_of_step hu, ← find?_eq_lookUp, ← find?_eq_lookUp, find?_detected, if_neg]
      rw [Bool.and_eq_true, ← Band.keyText_eq_iff, hkey]
      exact hne
    exact ⟨hget, fun at' => by rw [isBusyAt, isBusyAt, hget]⟩

/-- Energy on a narrow channel at one threshold is not found on the wide channel at another. -/
theorem detect_apart_channels :
    (0.01 : Number).isFinite ∧ (0 : Number) < 0.01 ∧ Band.isValid ⟨0, 63⟩ ∧ Band.isValid ⟨0, 127⟩ ∧
      Float.isFinite (-82) ∧ Float.isFinite (-62) ∧
      Band.keyText ⟨0, 63⟩ (-8200) ≠ Band.keyText ⟨0, 127⟩ (-6200) ∧
      ∀ t : BusyTable, t.resolution = 0.01 →
        ∃ found t', t.detect ⟨0, 63⟩ (-82) 0 10 = .ok (found, t') ∧
          t'.get ⟨0, 127⟩ (-62) = t.get ⟨0, 127⟩ (-62) := by
  have hres : (0.01 : Number).isFinite := by decide
  have hpos : (0 : Number) < 0.01 := by decide
  have hnarrow : Band.isValid ⟨0, 63⟩ := by decide
  have hwide : Band.isValid ⟨0, 127⟩ := by decide
  have hlow : Float.isFinite (-82) := by decide
  have hhigh : Float.isFinite (-62) := by decide
  obtain ⟨s, u, hs, hu, hkey, -, htables⟩ := detect_apart hres hpos hnarrow hwide hlow hhigh
  have hs' : (Threshold.step (-82) 0.01).toOption = some (-8200) := by decide
  have hu' : (Threshold.step (-62) 0.01).toOption = some (-6200) := by decide
  rw [hs] at hs'
  rw [hu] at hu'
  obtain rfl := Option.some.inj hs'
  obtain rfl := Option.some.inj hu'
  have hne : ¬Band.SameAt ⟨0, 63⟩ (-8200) ⟨0, 127⟩ (-6200) := fun h => absurd h.2.2 (by decide)
  refine ⟨hres, hpos, hnarrow, hwide, hlow, hhigh, hkey.not.2 hne, fun t ht => ?_⟩
  obtain ⟨found, t', hdetect, -, -, hothers⟩ := (htables t ht).2.2 0 10
  exact ⟨found, t', hdetect, (hothers hne).1⟩

end BusyTable

end RadioOccupancy
