import RadioOccupancy.Proofs.Keys
import RadioOccupancy.Proofs.Whole
import RadioOccupancy.Spectrum.Channel

/-!
The segments of a channel tile it, and wide segments consist of narrow ones.

    160 MHz   |                               0                               |
     80 MHz   |               0               |               1               |
     40 MHz   |       0       |       1       |       2       |       3       |
     20 MHz   |   0   |   1   |   2   |   3   |   4   |   5   |   6   |   7   |

How many sub-bands a segment has comes from a division that may be rounded. But each supported width is a
power of two times the least, so if a segment of one width has `n` sub-bands, one that is eight times as wide
has `8 * n`, whether this is exact or not (`Spaced.scale`). Up to two to the power of fifty-three the rest is
computed exactly.
-/

namespace RadioOccupancy

namespace Number
open Float.Model Float.Model.UnpackedFloat

/-! ### Divisors of positive quotients -/

theorem value_nonpos_of_components {x : Number} {e : BitVec 11} {m : BitVec 52}
    (hx : x.unpack = UnpackedFloat.unpack .binary64 (packComponents .binary64 .negative e m)) :
    x.value ≤ 0 := by
  rw [UnpackedFloat.unpack] at hx
  simp only [unpackSign_packComponents] at hx
  split at hx
  · split at hx <;> rw [value, hx]
  · split at hx
    · split at hx
      · rw [value, hx]
      · rw [value_of_negative hx, neg_nonpos]
        positivity
    · rw [value_of_negative hx, neg_nonpos]
      positivity

theorem value_nonpos_of_negative {x : Number} {m : Nat} {e : Int}
    (hx : x.unpack =
      UnpackedFloat.unpack .binary64 (UnpackedFloat.pack .binary64 (finiteOrZero .negative m e))) :
    x.value ≤ 0 := by
  rw [finiteOrZero] at hx
  split at hx
  · exact value_nonpos_of_components hx
  · rw [UnpackedFloat.pack] at hx
    dsimp only at hx
    split at hx
    · exact value_nonpos_of_components hx
    · split at hx <;> exact value_nonpos_of_components hx

/-- A positive number was divided by a positive one if the quotient is finite and positive. -/
theorem pos_of_div_pos {a s : Number} (ha : a.isFinite) (hpos : 0 < a.value) (hfin : (a / s).isFinite)
    (hquot : 0 < (a / s).value) : s.isFinite ∧ 0 < s.value := by
  obtain ⟨m, e, hm, hua⟩ := unpack_of_pos ha hpos
  have hdiv := unpack_div a s
  rw [isFinite_eq] at hfin ⊢
  rw [hua] at hdiv
  cases hus : s.unpack with
  | notANumber =>
    rw [hus] at hdiv
    change (a / s).unpack = UnpackedFloat.unpack .binary64 (UnpackedFloat.pack .binary64 .notANumber) at hdiv
    rw [hdiv] at hfin
    exact absurd hfin (by decide)
  | zero t =>
    rw [hus] at hdiv
    change (a / s).unpack = UnpackedFloat.unpack .binary64
      (UnpackedFloat.pack .binary64 (.infinity (.positive / t))) at hdiv
    rw [hdiv] at hfin
    cases t <;> exact absurd hfin (by decide)
  | infinity t =>
    rw [hus] at hdiv
    rw [value_of_zero (unpack_of_written_zero hdiv)] at hquot
    exact absurd hquot (lt_irrefl 0)
  | finite t n f hn =>
    cases t with
    | positive =>
      refine ⟨rfl, ?_⟩
      rw [value_of_positive hus]
      positivity
    | negative =>
      rw [hus] at hdiv
      exact absurd hquot (value_nonpos_of_negative hdiv).not_gt

end Number

open Number

namespace Channel

variable {c v w s x : Number} {b : Band} {i j k l n : Nat}

/-! ### Widths and spacings -/

/-- The width is supported: it is the least one, twice as wide, and so on. -/
structure Width (w : Number) (k : Nat) : Prop where
  supported : isWidth w
  lt : k < 4
  whole : Whole w (20 * 2 ^ k)

theorem exists_width (h : isWidth w) : ∃ k, Width w k := by
  obtain ⟨allowed, hallowed, hbeq⟩ := List.any_eq_true.1 h
  have hliteral : ∃ k < 4, Whole allowed (20 * 2 ^ k) := by
    rcases hallowed with _ | ⟨_, _ | ⟨_, _ | ⟨_, _ | ⟨_, ⟨⟩⟩⟩⟩⟩
    · exact ⟨0, by norm_num, whole_of_toInt? (by decide)⟩
    · exact ⟨1, by norm_num, whole_of_toInt? (by decide)⟩
    · exact ⟨2, by norm_num, whole_of_toInt? (by decide)⟩
    · exact ⟨3, by norm_num, whole_of_toInt? (by decide)⟩
  obtain ⟨k, hk, hwhole⟩ := hliteral
  exact ⟨k, h, hk, hwhole.of_beq hbeq⟩

theorem pow_le_eight (hk : k < 4) : 2 ^ k ≤ 8 :=
  Nat.pow_le_pow_right two_pos (by omega : k ≤ 3)

namespace Width

/-- A width in hertz. -/
theorem hertz (h : Width w k) : Whole (w * 1e6) (20 * 2 ^ k * 1000000) := by
  have hmega : Whole 1e6 1000000 := whole_of_toInt? (by decide)
  have := pow_le_eight h.lt
  exact h.whole.mul hmega (by omega)

theorem le_iff (hv : Width v j) (hw : Width w k) : v ≤ w ↔ j ≤ k := by
  rw [hv.whole.le_iff hw.whole, Nat.mul_le_mul_left_iff (by norm_num), Nat.pow_le_pow_iff_right one_lt_two]

theorem lt_iff (hv : Width v j) (hw : Width w k) : v < w ↔ j < k := by
  rw [hv.whole.lt_iff hw.whole, Nat.mul_lt_mul_left (by norm_num), Nat.pow_lt_pow_iff_right one_lt_two]

theorem unique (hj : Width w j) (hk : Width w k) : j = k :=
  Nat.pow_right_injective le_rfl (Nat.eq_of_mul_eq_mul_left (by norm_num) (hj.whole.unique hk.whole))

/-- How many times as wide one width is as another. -/
theorem div (hv : Width v j) (hw : Width w k) (hjk : j ≤ k) : Whole (w / v) (2 ^ (k - j)) := by
  have hmul : 20 * 2 ^ k = 2 ^ (k - j) * (20 * 2 ^ j) := by
    rw [mul_left_comm, ← pow_add, Nat.sub_add_cancel hjk]
  have hle := pow_le_eight (k := k - j) (by have := hw.lt; omega)
  exact (hmul ▸ hw.whole).div hv.whole (by positivity) (by positivity) (by omega)

end Width

/-- The spacing is positive, and divides the least width into parts that are not too small to be counted. -/
structure Spaced (s : Number) : Prop where
  isFinite : s.isFinite
  pos : 0 < s.value
  low : (2 : ℚ) ^ (-1000 : Int) ≤ 20000000 / s.value

theorem Spaced.rounded (h : Spaced s) (hw : Width w k) :
    Rounded (2 ^ k * (20000000 / s.value)) (subBands w s) := by
  have hvalue : (w * 1e6 : Number).value / s.value = 2 ^ k * (20000000 / s.value) := by
    rw [hw.hertz.value]
    push_cast
    ring
  rw [← hvalue]
  refine rounded_div hw.hertz.isFinite ?_ h.isFinite h.pos
  rw [hw.hertz.value]
  positivity

/-- It is so if there is a sub-band. -/
theorem spaced_of_subBands (hw : Width w k) (hn : Whole (subBands w s) n) (hpos : 0 < n) : Spaced s := by
  have hone : (1 : ℚ) ≤ (subBands w s).value := by
    rw [hn.value]
    exact_mod_cast hpos
  have hpos' : 0 < (w * 1e6 : Number).value := by
    rw [hw.hertz.value]
    positivity
  obtain ⟨hfin, hspos⟩ := pos_of_div_pos hw.hertz.isFinite hpos' hn.isFinite (zero_lt_one.trans_le hone)
  refine ⟨hfin, hspos, ?_⟩
  have hrounded := rounded_div hw.hertz.isFinite hpos' hfin hspos
  have hhalf := hrounded.pow_lt (f := -1) hn.isFinite (by norm_num)
    ((by norm_num : (2 : ℚ) ^ (-1 : Int) < 1).trans_le hone)
  have height : (2 : ℚ) ^ k ≤ 8 := by exact_mod_cast pow_le_eight hw.lt
  have hscaled : ((20 * 2 ^ k * 1000000 : Nat) : ℚ) / s.value = 2 ^ k * (20000000 / s.value) := by
    push_cast
    ring
  rw [hw.hertz.value, hscaled] at hhalf
  have hquot : (0 : ℚ) < 20000000 / s.value := by positivity
  have hle : (2 : ℚ) ^ k * (20000000 / s.value) ≤ 8 * (20000000 / s.value) := by gcongr
  have hsmall : (2 : ℚ) ^ (-1000 : Int) ≤ 2 ^ (-4 : Int) := zpow_le_zpow_right₀ one_le_two (by norm_num)
  refine hsmall.trans ?_
  norm_num at hhalf ⊢
  linarith

/-- A segment that is a power of two times as wide has that many times as many sub-bands. -/
theorem Spaced.scale (h : Spaced s) (hv : Width v j) (hw : Width w k) (hjk : j ≤ k)
    (hfin : (subBands v s).isFinite) (hfin' : (subBands w s).isFinite) :
    (subBands w s).value = 2 ^ (k - j) * (subBands v s).value := by
  have hpow : (2 : ℚ) ^ k = 2 ^ (k - j) * 2 ^ j := by rw [← pow_add, Nat.sub_add_cancel hjk]
  have hrounded' := h.rounded hw
  rw [hpow, mul_assoc] at hrounded'
  refine (h.rounded hv).scale hfin hrounded' hfin' (h.low.trans ?_)
  have hpos := h.pos
  exact le_mul_of_one_le_left (by positivity) (one_le_pow₀ one_le_two)

/-! ### Segments -/

theorem segment_eq_ok_iff : segment c w x s = .ok b ↔ isWidth c ∧ isWidth w ∧ x.isInteger ∧ ¬x < 0 ∧
    ¬c < (x + 1) * w ∧ (subBands w s).isInteger ∧ ¬subBands w s < 1 ∧
      b = ⟨x * subBands w s, x * subBands w s + subBands w s - 1⟩ := by
  rw [segment]
  simp only [Bool.or_eq_true, Bool.not_eq_true', ← Bool.not_eq_true, decide_eq_true_iff]
  split_ifs with hwidths hindex hfits hcount
  · exact iff_of_false not_false (by tauto)
  · exact iff_of_false not_false (by tauto)
  · exact iff_of_false not_false (by tauto)
  · exact iff_of_false not_false (by tauto)
  · rw [Except.ok.injEq, eq_comm]
    tauto

/-- No whole number is so large that the next one is not finite. -/
theorem isFinite_add_one (hx : Whole x i) : (x + 1).isFinite := by
  have hlargest := value_le_largest hx.isTime
  have hpow : (2 : ℚ) ^ (971 : Int) = 2 * 2 ^ 970 := (zpow_natCast 2 971).trans (pow_succ' 2 970)
  have htop : (2 : ℚ) ^ 1024 = 2 ^ 54 * 2 ^ 970 := pow_add 2 54 970
  have hlarge : (1 : ℚ) < 2 ^ 970 := one_lt_pow₀ one_lt_two (by norm_num)
  rw [isFinite_add_iff hx.isTime whole_one.isTime, whole_one.value, htop]
  rw [hpow] at hlargest
  generalize (2 : ℚ) ^ 970 = y at hlargest hlarge ⊢
  norm_num at hlargest ⊢
  linarith

theorem le_value_add_one (hx : Whole x i) : (i : ℚ) ≤ (x + 1).value := by
  have hfin := isFinite_add_one hx
  rcases add_of_isTime hx.isTime whole_one.isTime with ⟨-, hle⟩ | hinf
  · rwa [hx.value] at hle
  · rw [isFinite_eq, hinf] at hfin
    cases hfin

/-- A segment fits into a channel if it does by its index. -/
theorem fits_iff (hc : Width c l) (hw : Width w k) (hx : Whole x i) :
    ¬c < (x + 1) * w ↔ (i + 1) * 2 ^ k ≤ 2 ^ l := by
  have hl8 := pow_le_eight hc.lt
  have hk8 := pow_le_eight hw.lt
  rcases lt_or_ge i (2 ^ 40) with hi | hi
  · have hsmall : (i + 1) * (20 * 2 ^ k) < 2 ^ 53 := by
      calc (i + 1) * (20 * 2 ^ k) ≤ 2 ^ 40 * (20 * 8) := by gcongr; omega
        _ < 2 ^ 53 := by norm_num
    have hproduct := (hx.add whole_one (by omega)).mul hw.whole hsmall
    rw [hc.whole.lt_iff hproduct, not_lt, mul_left_comm]
    exact Nat.mul_le_mul_left_iff (by norm_num)
  · -- the product may be rounded, but not down to a width
    have hsum : (2 ^ 40 : ℚ) ≤ (x + 1).value := le_trans (by exact_mod_cast hi) (le_value_add_one hx)
    have hsumpos : 0 < (x + 1).value := (by norm_num : (0 : ℚ) < 2 ^ 40).trans_le hsum
    have hwpos : 0 < w.value := by
      rw [hw.whole.value]
      positivity
    obtain ⟨limit, hlimit⟩ := exists_whole (n := 320) (by norm_num)
    refine iff_of_false (not_not.2 ?_) ?_
    · refine (rounded_mul (isFinite_add_one hx) hsumpos hw.whole.isFinite hwpos).lt hc.whole.isFinite
        hlimit.isFinite ?_ ?_ ?_
      · rw [hlimit.value]
        norm_num
      · rw [hlimit.value, hc.whole.value]
        exact_mod_cast (by omega : 20 * 2 ^ l < 320)
      · have hone : (1 : ℚ) ≤ 2 ^ k := one_le_pow₀ one_le_two
        rw [hlimit.value, hw.whole.value]
        push_cast
        nlinarith
    · have : i + 1 ≤ (i + 1) * 2 ^ k := Nat.le_mul_of_pos_right _ (by positivity)
      omega

/-- As many segments fit into a channel as it is times as wide. -/
theorem index_lt_iff (hkl : k ≤ l) : (i + 1) * 2 ^ k ≤ 2 ^ l ↔ i < 2 ^ (l - k) := by
  rw [← Nat.sub_add_cancel hkl, pow_add, Nat.add_sub_cancel, Nat.mul_le_mul_right_iff (by positivity)]
  exact Nat.succ_le_iff

/-- A channel is wide enough for segments of the width, each of which has `n` sub-bands, and those of the
channel can all be told apart. -/
structure Divided (c w s : Number) (l k n : Nat) : Prop where
  channel : Width c l
  width : Width w k
  le : k ≤ l
  whole : Whole (subBands w s) n
  pos : 0 < n
  room : 2 ^ (l - k) * n < 2 ^ 53

/-- The largest number of sub-bands that can all be told apart. -/
theorem whole_limit : Whole 9007199254740991 (2 ^ 53 - 1) :=
  whole_of_toInt? (by decide)

/-- A channel has as many times the sub-bands of a segment as it is times as wide. -/
theorem whole_subBands (hc : Width c l) (hw : Width w k) (hkl : k ≤ l) (hn : Whole (subBands w s) n)
    (hpos : 0 < n) (hlimit : subBands c s ≤ 9007199254740991) :
    Whole (subBands c s) (2 ^ (l - k) * n) ∧ 2 ^ (l - k) * n < 2 ^ 53 := by
  have hspaced := spaced_of_subBands hw hn hpos
  have hfin : (subBands c s).isFinite := by
    obtain ⟨m, e, -, ⟨-, hfin, -⟩ | ⟨-, hinf⟩⟩ := hspaced.rounded hc
    · exact hfin
    · exact absurd hlimit (not_le_of_lt (lt_infinity whole_limit.isFinite hinf))
  have hvalue := hspaced.scale hw hc hkl hn.isFinite hfin
  rw [hn.value] at hvalue
  have hwhole : Whole (subBands c s) (2 ^ (l - k) * n) := ⟨hfin, hvalue.trans (by push_cast; rfl)⟩
  have hle := (hwhole.le_iff whole_limit).1 hlimit
  exact ⟨hwhole, by omega⟩

/-- Only segments that fit can be had, and only of supported widths. -/
theorem fits_of_segment (h : segment c w x s = .ok b) :
    ∃ l k i, Width c l ∧ Width w k ∧ k ≤ l ∧ Whole x i ∧ i < 2 ^ (l - k) := by
  obtain ⟨hcw, hww, hx, hx0, hfits, -⟩ := segment_eq_ok_iff.1 h
  obtain ⟨l, hc⟩ := exists_width hcw
  obtain ⟨k, hw⟩ := exists_width hww
  rw [Number.lt_iff (isFinite_of_isInteger hx) isFinite_zero, value_zero, not_lt] at hx0
  obtain ⟨i, hi⟩ := exists_whole_of_isInteger hx hx0
  have hfits := (fits_iff hc hw hi).1 hfits
  have hkl : k ≤ l := by
    have hle : 1 * 2 ^ k ≤ 2 ^ l := (Nat.mul_le_mul_right _ (Nat.le_add_left 1 i)).trans hfits
    rw [one_mul] at hle
    exact (Nat.pow_le_pow_iff_right one_lt_two).1 hle
  exact ⟨l, k, i, hc, hw, hkl, hi, (index_lt_iff hkl).1 hfits⟩

/-- The channel of such a segment is divided into segments of its width. -/
theorem exists_of_segment (h : segment c w x s = .ok b) (hlimit : subBands c s ≤ 9007199254740991) :
    ∃ l k n i, Divided c w s l k n ∧ Whole x i ∧ i < 2 ^ (l - k) := by
  obtain ⟨l, k, i, hc, hw, hkl, hi, hlt⟩ := fits_of_segment h
  obtain ⟨-, -, -, -, -, hcount, hcount1, -⟩ := segment_eq_ok_iff.1 h
  rw [Number.lt_iff (isFinite_of_isInteger hcount) whole_one.isFinite, whole_one.value, not_lt,
    Nat.cast_one] at hcount1
  obtain ⟨n, hn⟩ := exists_whole_of_isInteger hcount (zero_le_one.trans hcount1)
  rw [hn.value] at hcount1
  have hpos : 0 < n := by exact_mod_cast hcount1
  exact ⟨l, k, n, i, ⟨hc, hw, hkl, hn, hpos, (whole_subBands hc hw hkl hn hpos hlimit).2⟩, hi, hlt⟩

/-- A band of `n` sub-bands, all of which can be told apart, is valid. -/
theorem isValid_of_ends (hstart : Whole b.start (i * n)) (hstop : Whole b.stop ((i + 1) * n - 1))
    (hpos : 0 < n) : b.isValid ∧ b.stop.value - b.start.value + 1 = n := by
  have hsucc : (i + 1) * n = i * n + n := Nat.succ_mul i n
  constructor
  · rw [Band.isValid]
    simp only [Bool.and_eq_true, decide_eq_true_iff]
    exact ⟨⟨⟨hstart.isInteger, hstop.isInteger⟩, (whole_zero.le_iff hstart).2 (Nat.zero_le _)⟩,
      (hstart.le_iff hstop).2 (by omega)⟩
  · have hlast : (i + 1) * n - 1 + 1 = i * n + n := by omega
    have hcast : (((i + 1) * n - 1 : Nat) : ℚ) + 1 = (i * n : Nat) + n := by exact_mod_cast hlast
    rw [hstart.value, hstop.value]
    linarith

namespace Divided

/-- A segment that fits can be had, and its ends are exact. -/
theorem segment (h : Divided c w s l k n) (hx : Whole x i) (hi : i < 2 ^ (l - k)) :
    ∃ b, segment c w x s = .ok b ∧ Whole b.start (i * n) ∧ Whole b.stop ((i + 1) * n - 1) := by
  have hpos := h.pos
  have hsucc : (i + 1) * n = i * n + n := Nat.succ_mul i n
  have hlt : (i + 1) * n < 2 ^ 53 := (Nat.mul_le_mul_right n (Nat.succ_le_of_lt hi)).trans_lt h.room
  have hstart := hx.mul h.whole (by omega)
  have hend := hstart.add h.whole (by omega)
  refine ⟨_, segment_eq_ok_iff.2 ⟨h.channel.supported, h.width.supported, hx.isInteger, ?_,
    (fits_iff h.channel h.width hx).2 ((index_lt_iff h.le).2 hi), h.whole.isInteger, ?_, rfl⟩, hstart, ?_⟩
  · rw [hx.lt_iff whole_zero]
    omega
  · rw [h.whole.lt_iff whole_one]
    omega
  · rw [hsucc]
    exact hend.sub whole_one (by omega) (by omega)

/-- The ends of a segment come from its index and the number of its sub-bands. -/
theorem ends_of_segment (h : Divided c w s l k n) (hx : Whole x i) (hi : i < 2 ^ (l - k))
    (hb : Channel.segment c w x s = .ok b) : Whole b.start (i * n) ∧ Whole b.stop ((i + 1) * n - 1) := by
  obtain ⟨b', hb', hends⟩ := h.segment hx hi
  obtain rfl := Except.ok.inj (hb'.symm.trans hb)
  exact hends

end Divided

/-! ### All segments of a width -/

/-- So many segments can be had if each of them can. -/
theorem segmentsFrom_ok : ∀ count index : Nat,
    (∀ i < count, ∃ b, segment c w (Float.ofNat (index + i)) s = .ok b) →
      ∃ bands, segmentsFrom c w s count index = .ok bands ∧ bands.length = count ∧
        ∀ i b, bands[i]? = some b → segment c w (Float.ofNat (index + i)) s = .ok b
  | 0, _, _ => ⟨[], rfl, rfl, by rintro _ _ ⟨⟩⟩
  | count + 1, index, h => by
    obtain ⟨first, hfirst⟩ := h 0 (Nat.succ_pos count)
    obtain ⟨others, hothers, hlength, hmem⟩ := segmentsFrom_ok count (index + 1) fun i hi => by
      rw [Nat.add_right_comm]
      exact h (i + 1) (Nat.succ_lt_succ hi)
    refine ⟨first :: others, ?_, congrArg (· + 1) hlength, fun i b hb => ?_⟩
    · rw [Nat.add_zero] at hfirst
      rw [segmentsFrom, hfirst, hothers]
      rfl
    · cases i with
      | zero =>
        obtain rfl := Option.some.inj hb
        exact hfirst
      | succ i =>
        have hnext := hmem i b hb
        rwa [Nat.add_right_comm] at hnext

/-- All segments that fit can be had in one go. -/
theorem Divided.segments (h : Divided c w s l k n) : ∃ bands, segments c w s = .ok bands ∧
    bands.length = 2 ^ (l - k) ∧ ∀ i b, bands[i]? = some b →
      Channel.segment c w (Float.ofNat i) s = .ok b ∧ Whole b.start (i * n) ∧
        Whole b.stop ((i + 1) * n - 1) := by
  have hcount8 : 2 ^ (l - k) ≤ 8 := pow_le_eight (by have := h.channel.lt; omega)
  have hquotient := h.width.div h.channel h.le
  have hroom : ¬segmentLimit ≤ c / w := by
    have hmany : Whole segmentLimit 4294967296 := whole_of_toInt? (by decide)
    rw [hmany.le_iff hquotient]
    omega
  obtain ⟨bands, hbands, hlength, hmem⟩ :=
    segmentsFrom_ok (c := c) (w := w) (s := s) (2 ^ (l - k)) 0 fun i hi => by
    rw [Nat.zero_add]
    obtain ⟨b, hb, -⟩ := h.segment (whole_ofNat (by omega)) hi
    exact ⟨b, hb⟩
  refine ⟨bands, ?_, hlength, fun i b hb => ?_⟩
  · rw [Channel.segments]
    rw [if_neg hroom, hquotient.floorNat, hbands]
    rfl
  · have hi : i < 2 ^ (l - k) := hlength ▸ (List.getElem?_eq_some_iff.1 hb).1
    have hsegment := hmem i b hb
    rw [Nat.zero_add] at hsegment
    exact ⟨hsegment, h.ends_of_segment (whole_ofNat (by omega)) hi hsegment⟩

/-- The bands lie side by side: the first begins with the sub-band `first`, each of the others with the
sub-band after the band before it, and the sub-band after them all is `next`. -/
def Tiles : List Band → Nat → Nat → Prop
  | [], first, next => first = next
  | b :: rest, first, next =>
    ∃ stop, Whole b.start first ∧ Whole b.stop stop ∧ first ≤ stop ∧ Tiles rest (stop + 1) next

/-- Bands of one size do, if each begins where its index says. -/
theorem tiles_of_getElem? (hpos : 0 < n) : ∀ (bands : List Band) (index : Nat),
    (∀ i b, bands[i]? = some b → Whole b.start ((index + i) * n) ∧ Whole b.stop ((index + i + 1) * n - 1)) →
      Tiles bands (index * n) ((index + bands.length) * n)
  | [], _, _ => rfl
  | b :: rest, index, h => by
    obtain ⟨hstart, hstop⟩ := h 0 b rfl
    have hsucc : (index + 1) * n = index * n + n := Nat.succ_mul index n
    refine ⟨(index + 1) * n - 1, hstart, hstop, by omega, ?_⟩
    have hrest := tiles_of_getElem? hpos rest (index + 1) fun i b' hb' => by
      rw [Nat.add_right_comm index 1 i]
      exact h (i + 1) b' hb'
    have hlength : index + (rest.length + 1) = index + 1 + rest.length := by omega
    rw [Nat.sub_add_cancel (by omega), List.length_cons, hlength]
    exact hrest

/-- Segments one after the other tile the part of the channel from the first to the last of them. -/
theorem tiles_of_consecutive {bands : List Band} {r start : Nat} (hpos : 0 < n)
    (hbands : ∀ i b, bands[i]? = some b → Whole b.start (i * n) ∧ Whole b.stop ((i + 1) * n - 1))
    (hroom : start + r ≤ bands.length) :
    ((bands.drop start).take r).length = r ∧
      Tiles ((bands.drop start).take r) (start * n) ((start + r) * n) := by
  have hlength : ((bands.drop start).take r).length = r := by
    rw [List.length_take, List.length_drop]
    omega
  have htiles := tiles_of_getElem? hpos ((bands.drop start).take r) start fun i b hb => by
    have hi : i < r := hlength ▸ (List.getElem?_eq_some_iff.1 hb).1
    rw [List.getElem?_take_of_lt hi, List.getElem?_drop] at hb
    exact hbands (start + i) b hb
  rw [hlength] at htiles
  exact ⟨hlength, htiles⟩

/-! ### Segments of several widths -/

/-- A narrower width that has a whole number of sub-bands divides the channel, too, and the segments of the
width. -/
theorem Divided.narrow (h : Divided c w s l k n) (hv : Width v j) (hjk : j ≤ k)
    (hwhole : (subBands v s).isInteger) : ∃ n', Divided c v s l j n' ∧ n = 2 ^ (k - j) * n' := by
  have hspaced := spaced_of_subBands h.width h.whole h.pos
  have hfin := isFinite_of_isInteger hwhole
  obtain ⟨n', hn'⟩ := exists_whole_of_isInteger hwhole ((hspaced.rounded hv).value_nonneg hfin)
  have hvalue := hspaced.scale hv h.width hjk hfin h.whole.isFinite
  rw [h.whole.value, hn'.value] at hvalue
  have hmul : n = 2 ^ (k - j) * n' := by exact_mod_cast hvalue
  have hpos : 0 < n' := Nat.pos_of_ne_zero fun h0 => h.pos.ne' (by rw [hmul, h0, mul_zero])
  have hpow : l - j = l - k + (k - j) := by
    have := h.le
    omega
  refine ⟨n', ⟨h.channel, hv, hjk.trans h.le, hn', hpos, ?_⟩, hmul⟩
  rw [hpow, pow_add, mul_assoc, ← hmul]
  exact h.room

/-- The narrow segments at the place of a wide one tile it. -/
theorem Divided.tiles_of_narrow {n' : Nat} {parts : List Band} (h : Divided c w s l k n)
    (h' : Divided c v s l j n') (hjk : j ≤ k) (hn : n = 2 ^ (k - j) * n') (hi : i < 2 ^ (l - k))
    (hparts : ∀ i b, parts[i]? = some b → Whole b.start (i * n') ∧ Whole b.stop ((i + 1) * n' - 1))
    (hlength : parts.length = 2 ^ (l - j)) :
    ((parts.drop (i * 2 ^ (k - j))).take (2 ^ (k - j))).length = 2 ^ (k - j) ∧
      Tiles ((parts.drop (i * 2 ^ (k - j))).take (2 ^ (k - j))) (i * n) ((i + 1) * n - 1 + 1) := by
  have hroom : i * 2 ^ (k - j) + 2 ^ (k - j) ≤ parts.length := by
    have hpow : l - j = l - k + (k - j) := by
      have := h.le
      omega
    rw [hlength, hpow, pow_add, ← Nat.succ_mul]
    exact Nat.mul_le_mul_right _ hi
  have htiles := tiles_of_consecutive h'.pos hparts hroom
  have hstop : 0 < (i + 1) * n := Nat.mul_pos (Nat.succ_pos i) h.pos
  rwa [← Nat.succ_mul, mul_assoc, mul_assoc, ← hn, ← Nat.sub_add_cancel hstop] at htiles

/-- Widths with as many sub-bands are the same. -/
theorem Divided.width_unique {c' : Number} {l' : Nat} (h : Divided c w s l k n) (h' : Divided c' v s l' j n)
    (hkj : k ≤ j) : k = j := by
  have hvalue := (spaced_of_subBands h.width h.whole h.pos).scale h.width h'.width hkj h.whole.isFinite
    h'.whole.isFinite
  rw [h.whole.value, h'.whole.value] at hvalue
  have hmul : 1 * n = 2 ^ (j - k) * n := by
    rw [one_mul]
    exact_mod_cast hvalue
  have hone := Nat.eq_of_mul_eq_mul_right h.pos hmul
  have := (Nat.pow_eq_one.1 hone.symm).resolve_left (by norm_num)
  omega

/-- Segments of different widths or indices do not have the same ends. -/
theorem eq_of_sameKey {c' w' x' : Number} {b' : Band} (hb : segment c w x s = .ok b)
    (hb' : segment c' w' x' s = .ok b') (hlimit : subBands c s ≤ 9007199254740991)
    (hlimit' : subBands c' s ≤ 9007199254740991) (hsame : b.sameKey b') : w == w' ∧ x == x' := by
  obtain ⟨l, k, n, i, h, hx, hi⟩ := exists_of_segment hb hlimit
  obtain ⟨l', k', n', i', h', hx', hi'⟩ := exists_of_segment hb' hlimit'
  obtain ⟨hstart, hstop⟩ := h.ends_of_segment hx hi hb
  obtain ⟨hstart', hstop'⟩ := h'.ends_of_segment hx' hi' hb'
  rw [Band.sameKey, Bool.and_eq_true, same_iff_value hstart.isFinite hstart'.isFinite,
    same_iff_value hstop.isFinite hstop'.isFinite, hstart.value, hstart'.value, hstop.value, hstop'.value,
    Nat.cast_inj, Nat.cast_inj] at hsame
  have hpos := h.pos
  have hpos' := h'.pos
  have hcount : n = n' := by
    have hend : (i + 1) * n = i * n + n := Nat.succ_mul i n
    have hend' : (i' + 1) * n' = i' * n' + n' := Nat.succ_mul i' n'
    omega
  subst hcount
  have hindex : i = i' := Nat.eq_of_mul_eq_mul_right hpos hsame.1
  have hwidth : k = k' := (le_total k k').elim (h.width_unique h') fun hle => (h'.width_unique h hle).symm
  subst hwidth
  exact ⟨(h.width.whole.beq_iff h'.width.whole).2 rfl, (hx.beq_iff hx').2 hindex⟩

/-- If there is a first segment, and the sub-bands of the channel can all be told apart, the segments tile the
channel: there are as many as fit, each can be had by its index, and there are no others. Wide segments
consist of narrow ones, and segments that have the same key in a busy table have the same width and index. -/
theorem segments_tile {c w s : Number} {b₀ : Band} (hfirst : segment c w 0 s = .ok b₀)
    (hlimit : subBands c s ≤ 9007199254740991) :
    ∃ (count n : Nat) (bands : List Band), Whole (c / w) count ∧ Whole (subBands w s) n ∧
      Whole (subBands c s) (count * n) ∧ segments c w s = .ok bands ∧ bands.length = count ∧
      Tiles bands 0 (count * n) ∧
      (∀ b ∈ bands, b.isValid ∧ b.stop.value - b.start.value + 1 = n) ∧
      (∀ i b, bands[i]? = some b → segment c w (Float.ofNat i) s = .ok b) ∧
      (∀ x, (∃ b, segment c w x s = .ok b) ↔ ∃ i < count, Whole x i) ∧
      (∀ v, isWidth v → v < w → (subBands v s).isInteger → ∃ (r : Nat) (parts : List Band), Whole (w / v) r ∧
        segments c v s = .ok parts ∧ ∀ i b, bands[i]? = some b → ∃ start stop, Whole b.start start ∧
          Whole b.stop stop ∧ ((parts.drop (i * r)).take r).length = r ∧
          Tiles ((parts.drop (i * r)).take r) start (stop + 1)) ∧
      ∀ (c' w₁ w₂ x₁ x₂ step₁ step₂ : Number) (b₁ b₂ : Band), subBands c' s ≤ 9007199254740991 →
        segment c w₁ x₁ s = .ok b₁ → segment c' w₂ x₂ s = .ok b₂ →
          b₁.keyText step₁ = b₂.keyText step₂ → w₁ == w₂ ∧ x₁ == x₂ := by
  obtain ⟨l, k, n, -, h, -, -⟩ := exists_of_segment hfirst hlimit
  obtain ⟨hsub, -⟩ := whole_subBands h.channel h.width h.le h.whole h.pos hlimit
  obtain ⟨bands, hbands, hlength, hmem⟩ := h.segments
  refine ⟨2 ^ (l - k), n, bands, h.width.div h.channel h.le, h.whole, hsub, hbands, hlength, ?_, ?_,
    fun i b hb => (hmem i b hb).1, fun x => ⟨?_, ?_⟩, ?_, ?_⟩
  · have htiles := tiles_of_getElem? h.pos bands 0 fun i b hb => by
      rw [Nat.zero_add]
      exact (hmem i b hb).2
    rwa [Nat.zero_mul, Nat.zero_add, hlength] at htiles
  · intro b hb
    obtain ⟨i, hi⟩ := List.mem_iff_getElem?.1 hb
    obtain ⟨-, hstart, hstop⟩ := hmem i b hi
    exact isValid_of_ends hstart hstop h.pos
  · rintro ⟨b, hb⟩
    obtain ⟨l', k', n', i, h', hx, hi⟩ := exists_of_segment hb hlimit
    obtain rfl := h.channel.unique h'.channel
    obtain rfl := h.width.unique h'.width
    exact ⟨i, hi, hx⟩
  · rintro ⟨i, hi, hx⟩
    obtain ⟨b, hb, -⟩ := h.segment hx hi
    exact ⟨b, hb⟩
  · intro v hvw hlt hwhole
    obtain ⟨j, hv⟩ := exists_width hvw
    have hjk := ((hv.lt_iff h.width).1 hlt).le
    obtain ⟨n', h', hn⟩ := h.narrow hv hjk hwhole
    obtain ⟨parts, hparts, hlength', hmem'⟩ := h'.segments
    refine ⟨2 ^ (k - j), parts, hv.div h.width hjk, hparts, fun i b hb => ?_⟩
    obtain ⟨-, hstart, hstop⟩ := hmem i b hb
    exact ⟨_, _, hstart, hstop, h.tiles_of_narrow h' hjk hn (hlength ▸ (List.getElem?_eq_some_iff.1 hb).1)
      (fun i b hb => (hmem' i b hb).2) hlength'⟩
  · intro c' w₁ w₂ x₁ x₂ step₁ step₂ b₁ b₂ hlimit' hb₁ hb₂ hkey
    exact eq_of_sameKey hb₁ hb₂ hlimit hlimit' ((Band.keyText_eq_iff b₁ b₂ step₁ step₂).1 hkey).1

/-- A channel of 80 MHz consists of two segments of 40 MHz, each of 128 sub-bands of 312.5 kHz. -/
theorem segments_tile_of_two : ∃ b₀, segment 80 40 0 312500 = .ok b₀ ∧ subBands 80 312500 ≤ 9007199254740991 ∧
    ∃ bands, segments 80 40 312500 = .ok bands ∧ bands.length = 2 ∧ Tiles bands 0 256 := by
  have hfirst : segment 80 40 0 312500 =
      .ok ⟨0 * subBands 40 312500, 0 * subBands 40 312500 + subBands 40 312500 - 1⟩ :=
    segment_eq_ok_iff.2 (by decide)
  have hlimit : subBands 80 312500 ≤ 9007199254740991 := by decide
  obtain ⟨count, n, bands, hcount, hn, -, hbands, hlength, htiles, -⟩ := segments_tile hfirst hlimit
  obtain rfl := hcount.unique (whole_of_toInt? (by decide) : Whole (80 / 40) 2)
  obtain rfl := hn.unique (whole_of_toInt? (by decide) : Whole (subBands 40 312500) 128)
  exact ⟨_, hfirst, hlimit, bands, hbands, hlength, htiles⟩

end Channel

end RadioOccupancy
