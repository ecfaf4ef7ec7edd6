import RadioOccupancy.Proofs.Channels

/-!
Whether the segments of a width can be had, and whether the first one can.

    channel / width      0             1                          2 ^ 32
                    -----|-------------[--------------------------)---------
    all of them               none     |   as the first of them   | too many
    the first one            refused   |     had or refused       | refused

How many segments there are is computed before anything is checked. So a list is refused like its first
segment only if it has one and is not too long to be made (`segments_agree_iff`). A channel that is narrower
than the width, or a width that no number can be divided by, has no segments, and an empty list of them.
-/

namespace RadioOccupancy

namespace Channel
open Number

variable {c w s x y : Number} {b : Band} {i k l : Nat}

/-- A request for a segment is refused as invalid, if at all. -/
theorem code_of_segment_error {r : Refusal} (h : segment c w x s = .error r) : r.code = .invalidArgument := by
  rw [segment] at h
  dsimp only at h
  split_ifs at h <;> cases h <;> rfl

/-- If one segment can be had, so can each that fits. -/
theorem segment_of_segment (h : segment c w x s = .ok b) (hc : Width c l) (hw : Width w k) (hkl : k ≤ l)
    (hy : Whole y i) (hi : i < 2 ^ (l - k)) : ∃ b', segment c w y s = .ok b' := by
  obtain ⟨hcw, hww, -, -, -, hcount, hcount1, -⟩ := segment_eq_ok_iff.1 h
  refine ⟨_, segment_eq_ok_iff.2 ⟨hcw, hww, hy.isInteger, ?_, ?_, hcount, hcount1, rfl⟩⟩
  · rw [hy.lt_iff whole_zero]
    exact Nat.not_lt_zero i
  · exact (fits_iff hc hw hy).2 ((index_lt_iff hkl).2 hi)

theorem segmentsFrom_error {r : Refusal} {index : Nat} (h : segment c w (Float.ofNat index) s = .error r)
    (count : Nat) : segmentsFrom c w s (count + 1) index = .error r := by
  rw [segmentsFrom, h]
  rfl

/-- Whoever asks for all segments of a width and whoever asks for the first one are told the same: both get
what they ask for, or both requests are refused as invalid. -/
def Agrees (c w s : Number) : Prop :=
  (∃ bands b, segments c w s = .ok bands ∧ segment c w 0 s = .ok b) ∨
    ∃ r r', segments c w s = .error (.refused r) ∧ segment c w 0 s = .error r' ∧
      r.code = .invalidArgument ∧ r'.code = .invalidArgument

theorem whole_segmentLimit : Whole segmentLimit 4294967296 :=
  whole_of_toInt? (by decide)

/-- A channel that has a first segment is as many times as wide as segments fit into it. -/
theorem quotient_of_segment (h : segment c w x s = .ok b) : ∃ n, Whole (c / w) n ∧ 0 < n ∧ n ≤ 8 := by
  obtain ⟨l, k, i, hc, hw, hkl, -, -⟩ := fits_of_segment h
  exact ⟨2 ^ (l - k), hw.div hc hkl, by positivity, pow_le_eight (by have := hc.lt; omega)⟩

theorem segments_of_narrow (h : ¬1 ≤ c / w) (s : Number) : segments c w s = .ok [] := by
  have hfew : ¬segmentLimit ≤ c / w := fun hle =>
    h (Number.le_trans ((whole_one.le_iff whole_segmentLimit).2 (by norm_num)) hle)
  rw [segments, if_neg hfew, floorNat_of_not_le h]
  rfl

theorem segments_of_wide (h : segmentLimit ≤ c / w) (s : Number) :
    segments c w s = .error .tooManySegments := by
  rw [segments]
  exact if_pos h

/-- In between the first segment decides. -/
theorem segments_of_fits (h : 1 ≤ c / w) (h' : c / w < segmentLimit) (s : Number) :
    (∃ bands b, segments c w s = .ok (b :: bands) ∧ segment c w 0 s = .ok b) ∨
      ∃ r, segments c w s = .error (.refused r) ∧ segment c w 0 s = .error r := by
  have hfin : (c / w).isFinite := isFinite_of_isTime (isTime_of_le
    (Number.le_trans ((whole_zero.le_iff whole_one).2 zero_le_one) h)
    (Number.le_of_lt h') whole_segmentLimit.isTime)
  have hone : 1 ≤ (c / w).value := by
    rwa [Number.le_iff whole_one.isFinite hfin, whole_one.value, Nat.cast_one] at h
  obtain ⟨count, hcount⟩ := Nat.exists_eq_add_one.2 (Nat.floor_pos.2 hone)
  have hlist : segments c w s = (segmentsFrom c w s (count + 1) 0).mapError .refused := by
    rw [segments, if_neg (not_le_of_lt h'), floorNat_eq hfin, hcount]
  have hzero : segment c w (Float.ofNat 0) s = segment c w 0 s := rfl
  cases hfirst : segment c w 0 s with
  | error r =>
    refine Or.inr ⟨r, ?_, rfl⟩
    rw [hlist, segmentsFrom_error (hzero.trans hfirst)]
    rfl
  | ok b =>
    obtain ⟨l, k, -, hc, hw, hkl, -, -⟩ := fits_of_segment hfirst
    have hquotient := hw.div hc hkl
    have hle : 2 ^ (l - k) ≤ 8 := pow_le_eight (by have := hc.lt; omega)
    rw [hquotient.value, Nat.floor_natCast] at hcount
    obtain ⟨bands, hbands, hlength, hmem⟩ :=
      segmentsFrom_ok (c := c) (w := w) (s := s) (count + 1) 0 fun i hi => by
      rw [Nat.zero_add]
      exact segment_of_segment hfirst hc hw hkl (whole_ofNat (by omega)) (by omega)
    cases bands with
    | nil => cases hlength
    | cons first rest =>
      have hfirst' := hmem 0 first rfl
      obtain rfl := Except.ok.inj (hfirst'.symm.trans (hzero.trans hfirst))
      exact Or.inl ⟨rest, first, by rw [hlist, hbands]; rfl, rfl⟩

/-- Outside of this range no segment can be had. -/
theorem segment_refused (h : ¬(1 ≤ c / w ∧ c / w < segmentLimit)) (x s : Number) :
    ∃ r, segment c w x s = .error r ∧ r.code = .invalidArgument := by
  cases hfirst : segment c w x s with
  | error r => exact ⟨r, rfl, code_of_segment_error hfirst⟩
  | ok b =>
    obtain ⟨n, hn, hpos, hle⟩ := quotient_of_segment hfirst
    exact absurd ⟨(whole_one.le_iff hn).2 hpos, (hn.lt_iff whole_segmentLimit).2 (by omega)⟩ h

/-- A refused segment does not agree with a list that was not refused. -/
theorem not_agrees {r : Refusal} (hfirst : segment c w 0 s = .error r)
    (hlist : segments c w s = .ok [] ∨ segments c w s = .error .tooManySegments) : ¬Agrees c w s := by
  rintro (⟨bands, b, -, hb⟩ | ⟨r', -, hrefused, -⟩)
  · cases hfirst.symm.trans hb
  · obtain hlist | hlist := hlist <;> cases hlist.symm.trans hrefused

/-- The two requests agree just if the channel is at least as wide as the segments, and not so many times as
wide that they would not go into a list. Then the first segment is the first of the list, or both requests are
refused for the same reason. Otherwise no such segment can be had, but a narrow channel has an empty list of
them, and a list that is too long fails before anything is checked. -/
theorem segments_agree_iff (c w s : Number) :
    (Agrees c w s ↔ 1 ≤ c / w ∧ c / w < segmentLimit) ∧
    (Agrees c w s → (∃ bands b, segments c w s = .ok (b :: bands) ∧ segment c w 0 s = .ok b) ∨
      ∃ r, segments c w s = .error (.refused r) ∧ segment c w 0 s = .error r) ∧
    (¬Agrees c w s → (∃ r, segment c w 0 s = .error r ∧ r.code = .invalidArgument) ∧
      (segments c w s = .ok [] ∧ ¬1 ≤ c / w ∨
        segments c w s = .error .tooManySegments ∧ segmentLimit ≤ c / w)) := by
  by_cases hfits : 1 ≤ c / w ∧ c / w < segmentLimit
  · have htogether := segments_of_fits hfits.1 hfits.2 s
    have hagrees : Agrees c w s := by
      obtain ⟨bands, b, hbands, hb⟩ | ⟨r, hlist, hfirst⟩ := htogether
      · exact Or.inl ⟨_, _, hbands, hb⟩
      · have hcode := code_of_segment_error hfirst
        exact Or.inr ⟨r, r, hlist, hfirst, hcode, hcode⟩
    exact ⟨iff_of_true hagrees hfits, fun _ => htogether, fun hnot => absurd hagrees hnot⟩
  · obtain ⟨r, hfirst, hcode⟩ := segment_refused hfits 0 s
    have hlist : segments c w s = .ok [] ∧ ¬1 ≤ c / w ∨
        segments c w s = .error .tooManySegments ∧ segmentLimit ≤ c / w := by
      by_cases hone : 1 ≤ c / w
      · have hlarge := Number.le_of_not_lt (not_isNaN_of_isTime whole_segmentLimit.isTime)
          (le_iff_rank.1 hone).2.1 fun hlt => hfits ⟨hone, hlt⟩
        exact Or.inr ⟨segments_of_wide hlarge s, hlarge⟩
      · exact Or.inl ⟨segments_of_narrow hone s, hone⟩
    have hdiffers := not_agrees hfirst (hlist.imp And.left And.left)
    exact ⟨iff_of_false hdiffers hfits, fun hagrees => absurd hagrees hdiffers,
      fun _ => ⟨⟨r, hfirst, hcode⟩, hlist⟩⟩

/-- No segment of 40 MHz fits into a channel of 20 MHz, no width is supported that is undefined, and no
channel is infinitely wide. But the lists of such segments are empty, empty, and too long. -/
theorem unfit_segments_listed :
    let spacing : Number := 312500
    (segments 20 40 spacing = .ok [] ∧ segment 20 40 0 spacing = .error ⟨"getBand", .doesNotFit 0 40 20⟩ ∧
        ¬Agrees 20 40 spacing) ∧
      (segments 20 undefined spacing = .ok [] ∧ ¬Agrees 20 undefined spacing) ∧
      (segments infinite 20 spacing = .error .tooManySegments ∧ ¬Agrees infinite 20 spacing) := by
  intro spacing
  have hnarrow : segment 20 40 0 spacing = .error ⟨"getBand", .doesNotFit 0 40 20⟩ := by
    rw [segment, if_neg (by decide), if_neg (by decide), if_pos (by decide)]
  have hundefined : segment 20 undefined 0 spacing = .error ⟨"getBand", .width 20 undefined⟩ := by
    rw [segment, if_pos (by decide)]
  have hinfinite : segment infinite 20 0 spacing = .error ⟨"getBand", .width infinite 20⟩ := by
    rw [segment, if_pos (by decide)]
  have hlist := segments_of_narrow (c := 20) (w := 40) (by decide) spacing
  have hlist' := segments_of_narrow (c := 20) (w := undefined) (by decide) spacing
  have hlist'' := segments_of_wide (c := infinite) (w := 20) (by decide) spacing
  exact ⟨⟨hlist, hnarrow, not_agrees hnarrow (Or.inl hlist)⟩, ⟨hlist', not_agrees hundefined (Or.inl hlist')⟩,
    hlist'', not_agrees hinfinite (Or.inr hlist'')⟩

end Channel

end RadioOccupancy
