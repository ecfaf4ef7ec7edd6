import Mathlib
import RadioOccupancy.Proofs.Exact

/-!
Which sums of times end after the time, and which are finite.

    now         middle         now + gap
     |------------+------------|
     <-----------]             |        rounded to now, if its significand is even
     <----------)              |        if it is odd
                  (------------>        rounded to the next number

The exact sum of a time and a duration is rounded to the nearest number. So a duration that is short beside
the time is lost, and a sum is infinite that is nearer to a number that can not be written any more. Both are
one question, whether the sum is rounded past a number, and the middle of the gap after that number answers it
(`round_nearest`). What is asked of the time itself is `lt_add_iff`, of the largest number `isFinite_add_iff`.
The gap leads to the next number (`next_after`), and up to two to the power of fifty-three it is a unit at
most, so that nothing is lost there that lasts a unit (`advances_of_one_le`).
-/

namespace RadioOccupancy

namespace Number
open Float.Model Float.Model.UnpackedFloat

/-! ### Rounding past a number -/

variable {m n : Nat} {e f : Int}

/-- A positive number is rounded past a number that can be written if it is past the middle of the gap after
it. In the middle this depends on the significand. -/
theorem round_nearest (hm : 0 < m) (e : Int) :
    ∃ m' e', Normal m' e' ∧ round .binary64 .positive m e = finiteOrZero .positive m' e' ∧
      ∀ n f, Normal n f → ((n : ℚ) * 2 ^ f < m' * 2 ^ e' ↔ RoundsUp n f (m * 2 ^ e)) := by
  obtain ⟨m', e', hnormal, hround, hvalue⟩ := round_spec hm e
  refine ⟨m', e', hnormal, hround, fun n f hn => ?_⟩
  have hq := normal_quotient hm e
  have hbelow := quotient_mul_le m e (exponentFor m e)
  have hlow : (n : ℚ) * 2 ^ f ≤ m * 2 ^ e →
      (n : ℚ) * 2 ^ f ≤ quotient m e (exponentFor m e) * 2 ^ exponentFor m e := le_quotient_mul hn hm
  generalize quotient m e (exponentFor m e) = q at hvalue hq hbelow hlow
  generalize exponentFor m e = t at hvalue hq hbelow hlow
  generalize (m : ℚ) * 2 ^ e = v at hvalue hbelow hlow ⊢
  have hpos : (0 : ℚ) < 2 ^ f := by positivity
  have hpos' : (0 : ℚ) < 2 ^ t := by positivity
  have hsucc : ((q + 1 : Nat) : ℚ) * 2 ^ t = q * 2 ^ t + 2 ^ t := by push_cast; ring
  have hsucc' : ((n + 1 : Nat) : ℚ) * 2 ^ f = n * 2 ^ f + 2 ^ f := by push_cast; ring
  rcases lt_trichotomy ((n : ℚ) * 2 ^ f) (q * 2 ^ t) with hlt | heq | hgt
  · -- the lower neighbour is past it already, so the middle is behind
    have hgap := succ_mul_le hn hq hlt
    refine iff_of_true ?_ (Or.inl (by linarith))
    rcases hvalue with ⟨-, hvalue⟩ | ⟨-, hvalue⟩ <;> linarith
  · obtain ⟨rfl, rfl⟩ := eq_of_normal hn hq heq
    rcases hvalue with ⟨hup, hvalue⟩ | ⟨hup, hvalue⟩
    · exact iff_of_true (by linarith) hup
    · exact iff_of_false (by linarith) hup
  · -- it is not before the upper neighbour
    have hv : ¬(n : ℚ) * 2 ^ f ≤ v := fun h => absurd (hlow h) hgt.not_ge
    have hgap := succ_mul_le hq hn hgt
    refine iff_of_false ?_ (not_roundsUp_of_le (le_of_not_ge hv))
    rcases hvalue with ⟨-, hvalue⟩ | ⟨-, hvalue⟩ <;> linarith

/-! ### The largest number -/

theorem normal_largest : Normal (2 ^ 53 - 1) 971 :=
  ⟨by norm_num, by norm_num, Or.inl (by norm_num)⟩

/-- No finite number is above the largest. -/
theorem mul_le_largest (hn : Normal m e) :
    (m : ℚ) * 2 ^ e ≤ (2 ^ 53 - 1 : Nat) * 2 ^ (971 : Int) ↔ e ≤ 971 := by
  refine ⟨fun hle => ?_, fun htop => ?_⟩
  · by_contra! hlt
    exact absurd hle (mul_lt_mul_of_exponent_lt normal_largest hn hlt).not_ge
  · have hm : m ≤ 2 ^ 53 - 1 := Nat.le_sub_one_of_lt hn.lt
    have hpow : (2 : ℚ) ^ e ≤ 2 ^ (971 : Int) := zpow_le_zpow_right₀ one_le_two htop
    gcongr

/-- There is a number for each significand and exponent that are no larger. -/
theorem exists_of_normal (hm : 0 < m) (hn : Normal m e) (htop : e ≤ 971) :
    ∃ x : Number, x.isFinite ∧ x.value = m * 2 ^ e := by
  have hu : Number.unpack (.ofModel (.pack (.finite .positive m e hm))) = .finite .positive m e hm :=
    unpack_pack_of_le hm hn htop
  exact ⟨_, by rw [isFinite_eq, hu]; rfl, value_of_positive hu⟩

/-- The middle of the gap after the largest number. -/
theorem roundsUp_largest (v : ℚ) : RoundsUp (2 ^ 53 - 1) 971 v ↔ 2 ^ 1024 - 2 ^ 970 ≤ v := by
  have hodd : (2 ^ 53 - 1) % 2 = 1 := by norm_num
  have hpow : (2 : ℚ) ^ (971 : Int) = 2 * 2 ^ 970 := (zpow_natCast 2 971).trans (pow_succ' 2 970)
  have htop : (2 : ℚ) ^ 1024 = 2 ^ 54 * 2 ^ 970 := pow_add 2 54 970
  rw [RoundsUp, and_iff_left hodd, ← le_iff_lt_or_eq, hpow, htop]
  generalize (2 : ℚ) ^ 970 = g
  push_cast
  constructor <;> intro h <;> linarith

theorem value_le_largest {x : Number} (hx : x.isTime) : x.value ≤ (2 ^ 53 - 1 : Nat) * 2 ^ (971 : Int) := by
  rcases unpack_of_isTime hx with ⟨s, hu⟩ | ⟨m, e, hm, hu⟩
  · rw [value_of_zero hu]
    positivity
  · rw [value_of_positive hu]
    exact (mul_le_largest (normal_of_unpack hu)).2 (exponent_le_of_unpack hu)

/-! ### The gap after a number -/

/-- How far it is from a time to the next larger number. -/
def gap (x : Number) : ℚ :=
  match x.unpack with
  | .finite _ _ e _ => 2 ^ e
  | _ => 2 ^ (-1074 : Int)

/-- The significand of a number is odd. -/
def isOdd (x : Number) : Bool :=
  match x.unpack with
  | .finite _ m _ _ => m % 2 == 1
  | _ => false

theorem gap_pos (x : Number) : 0 < x.gap := by
  rw [gap]
  split <;> positivity

section Gap

variable {x : Number} {s : Sign} {h : 0 < m}

theorem gap_of_zero (hx : x.unpack = .zero s) : x.gap = 2 ^ (-1074 : Int) := by
  rw [gap, hx]

theorem gap_of_finite (hx : x.unpack = .finite s m e h) : x.gap = 2 ^ e := by
  rw [gap, hx]

theorem isOdd_of_finite (hx : x.unpack = .finite s m e h) : x.isOdd = true ↔ m % 2 = 1 := by
  rw [isOdd, hx]
  exact beq_iff_eq

/-- No positive number is less than the gap after zero. -/
theorem least_le_mul (hn : Normal m e) (hm : 0 < m) : (2 : ℚ) ^ (-1074 : Int) ≤ m * 2 ^ e := by
  have hone : (1 : ℚ) ≤ m := by exact_mod_cast hm
  calc (2 : ℚ) ^ (-1074 : Int) ≤ 2 ^ e := zpow_le_zpow_right₀ one_le_two hn.least
    _ = 1 * 2 ^ e := (one_mul _).symm
    _ ≤ m * 2 ^ e := by gcongr

/-- There is no number within the gap after a time. -/
theorem add_gap_le {a b : Number} (ha : a.isTime) (hb : b.isFinite) (hlt : a < b) :
    a.value + a.gap ≤ b.value := by
  rw [lt_iff (isFinite_of_isTime ha) hb] at hlt
  obtain ⟨n, f, hn, hub⟩ := unpack_of_pos hb ((value_nonneg ha).trans_lt hlt)
  rw [value_of_positive hub] at hlt ⊢
  rcases unpack_of_isTime ha with ⟨s, hua⟩ | ⟨m, e, hm, hua⟩
  · rw [value_of_zero hua, gap_of_zero hua, zero_add]
    exact least_le_mul (normal_of_unpack hub) hn
  · rw [value_of_positive hua] at hlt
    rw [value_of_positive hua, gap_of_finite hua]
    calc (m : ℚ) * 2 ^ e + 2 ^ e = (m + 1 : Nat) * 2 ^ e := by push_cast; ring
      _ ≤ n * 2 ^ f := succ_mul_le (normal_of_unpack hua) (normal_of_unpack hub) hlt

/-- A time and the gap after it make the next larger number, if there is one. -/
theorem next_after {a : Number} (ha : a.isTime) (hroom : a.value + a.gap < 2 ^ 1024) :
    ∃ b : Number, b.isFinite ∧ b.value = a.value + a.gap ∧ ∀ c : Number, c.isFinite → a < c → b ≤ c := by
  suffices h : ∃ b : Number, b.isFinite ∧ b.value = a.value + a.gap by
    obtain ⟨b, hb, hvalue⟩ := h
    exact ⟨b, hb, hvalue, fun c hc hlt => (le_iff hb hc).2 (hvalue ▸ add_gap_le ha hc hlt)⟩
  rcases unpack_of_isTime ha with ⟨s, hua⟩ | ⟨m, e, hm, hua⟩
  · obtain ⟨b, hb, hvalue⟩ := exists_of_normal one_pos
      (⟨by norm_num, le_rfl, Or.inr rfl⟩ : Normal 1 (-1074)) (by norm_num)
    exact ⟨b, hb, by rw [hvalue, value_of_zero hua, gap_of_zero hua, Nat.cast_one, one_mul, zero_add]⟩
  · obtain ⟨m', e', -, -, hnormal, heq⟩ := shift_rounded (normal_of_unpack hua) (Or.inr rfl)
    have hsum : a.value + a.gap = m' * 2 ^ e' := by
      rw [value_of_positive hua, gap_of_finite hua, ← heq]
      push_cast
      ring
    have hpos : (0 : ℚ) < m' * 2 ^ e' := hsum ▸ add_pos_of_nonneg_of_pos (value_nonneg ha) a.gap_pos
    rw [hsum] at hroom ⊢
    exact exists_of_normal (pos_of_mul_two_pow_pos hpos) hnormal
      (exponent_le_of_lt hnormal (by norm_num) (hroom.trans_eq (zpow_natCast 2 1024).symm))

end Gap

/-! ### Sums of times -/

/-- A duration leads from a time past the middle of the gap after it. In the middle this depends on the
significand. -/
def Advances (now duration : Number) : Prop :=
  now.gap < 2 * duration.value ∨ now.gap = 2 * duration.value ∧ now.isOdd

instance (now duration : Number) : Decidable (now.Advances duration) :=
  inferInstanceAs (Decidable (_ ∨ _ ∧ _))

variable {a d : Number}

/-- The sum of two positive numbers, and what it is rounded past. -/
theorem add_nearest {hm : 0 < m} {hn : 0 < n} (ha : a.unpack = .finite .positive m e hm)
    (hd : d.unpack = .finite .positive n f hn) :
    ∃ m' e', Normal m' e' ∧
      (e' ≤ 971 ∧ (a + d).isFinite ∧ (a + d).value = m' * 2 ^ e' ∨
        971 < e' ∧ (a + d).unpack = .infinity .positive) ∧
      ∀ k q, Normal k q → ((k : ℚ) * 2 ^ q < m' * 2 ^ e' ↔ RoundsUp k q (a.value + d.value)) := by
  have hsum := unpack_add a d
  obtain ⟨k, hadd, hk⟩ := add_positive (e := e) (f := f) hm hn
  have hpos : 0 < k :=
    pos_of_mul_two_pow_pos ((by positivity : (0 : ℚ) < m * 2 ^ e + n * 2 ^ f).trans_eq hk.symm)
  obtain ⟨m', e', hnormal, hround, hnearest⟩ := round_nearest hpos (min e f)
  rw [hk, ← value_of_positive ha, ← value_of_positive hd] at hnearest
  refine ⟨m', e', hnormal, ?_, hnearest⟩
  have hlarge : RoundsUp 0 (-1074) (a.value + d.value) := by
    have hleast := least_le_mul (normal_of_unpack ha) hm
    have hfirst : (0 : ℚ) < m * 2 ^ e := by positivity
    have hrest : (0 : ℚ) < n * 2 ^ f := by positivity
    rw [value_of_positive ha, value_of_positive hd, RoundsUp, Nat.cast_zero, zero_mul, sub_zero]
    exact Or.inl (hleast.trans_lt (by linarith))
  have hm' : 0 < m' := by
    have hlt := (hnearest 0 (-1074) ⟨by norm_num, le_rfl, Or.inr rfl⟩).2 hlarge
    rw [Nat.cast_zero, zero_mul] at hlt
    exact pos_of_mul_two_pow_pos hlt
  rw [ha, hd, hadd, hround, finiteOrZero, dif_neg hm'.ne'] at hsum
  exact value_of_pack hnormal hsum

/-- A time plus a duration is later than the time just if the duration leads past the middle of the gap. -/
theorem lt_add_iff (ha : a.isTime) (hd : d.isTime) : a < a + d ↔ a.Advances d := by
  have hfina := isFinite_of_isTime ha
  have hfind := isFinite_of_isTime hd
  rcases unpack_of_isTime hd with ⟨s, hud⟩ | ⟨n, f, hn, hud⟩
  · have hzero := value_of_zero hud
    obtain ⟨hfin, hvalue⟩ := add_of_value ha hd hfina (by rw [hzero, add_zero])
    have hgap := a.gap_pos
    refine iff_of_false ?_ ?_
    · rw [lt_iff hfina hfin, hvalue]
      exact lt_irrefl _
    · rw [Advances, hzero]
      rintro (h | ⟨h, -⟩) <;> linarith
  · have hpos : (0 : ℚ) < n * 2 ^ f := by positivity
    rcases unpack_of_isTime ha with ⟨s, hua⟩ | ⟨m, e, hm, hua⟩
    · have hzero := value_of_zero hua
      obtain ⟨hfin, hvalue⟩ := add_of_value ha hd hfind (by rw [hzero, zero_add])
      have hleast := least_le_mul (normal_of_unpack hud) hn
      rw [lt_iff hfina hfin, hvalue, hzero, Advances, gap_of_zero hua, value_of_positive hud]
      exact iff_of_true hpos (Or.inl (by linarith))
    · obtain ⟨m', e', hnormal, hsum, hnearest⟩ := add_nearest hua hud
      have hpast : a < a + d ↔ (m : ℚ) * 2 ^ e < m' * 2 ^ e' := by
        rcases hsum with ⟨-, hfin, hvalue⟩ | ⟨htop, hinf⟩
        · rw [lt_iff hfina hfin, hvalue, value_of_positive hua]
        · exact iff_of_true (lt_infinity hfina hinf) (mul_lt_mul_of_exponent_lt (normal_of_unpack hua) hnormal
            ((exponent_le_of_unpack hua).trans_lt htop))
      rw [hpast, hnearest _ _ (normal_of_unpack hua), RoundsUp, Advances, gap_of_finite hua,
        isOdd_of_finite hua, value_of_positive hua, add_sub_cancel_left]

/-- Up to two to the power of fifty-three no duration of a unit or more is lost. -/
theorem advances_of_one_le (ha : a.isTime) (hlt : a.value < 2 ^ 53) (hd : 1 ≤ d.value) : a.Advances d := by
  refine Or.inl ?_
  have hgap : a.gap ≤ 1 := by
    rcases unpack_of_isTime ha with ⟨s, hua⟩ | ⟨m, e, hm, hua⟩
    · rw [gap_of_zero hua]
      exact zpow_le_one_of_nonpos₀ one_le_two (by norm_num)
    · have hn := normal_of_unpack hua
      rw [value_of_positive hua] at hlt
      rw [gap_of_finite hua]
      exact zpow_le_one_of_nonpos₀ one_le_two
        (exponent_le_of_lt hn (by norm_num) (hlt.trans_eq (zpow_natCast 2 53).symm))
  linarith

/-- A time plus a duration is finite just if it is before the middle of the gap after the largest number. -/
theorem isFinite_add_iff (ha : a.isTime) (hd : d.isTime) :
    (a + d).isFinite ↔ a.value + d.value < 2 ^ 1024 - 2 ^ 970 := by
  rw [← not_le, ← roundsUp_largest]
  rcases unpack_of_isTime hd with ⟨s, hud⟩ | ⟨n, f, hn, hud⟩
  · have hsum : a.value = a.value + d.value := by rw [value_of_zero hud, add_zero]
    exact iff_of_true (add_of_value ha hd (isFinite_of_isTime ha) hsum).1
      (not_roundsUp_of_le (hsum ▸ value_le_largest ha))
  rcases unpack_of_isTime ha with ⟨s, hua⟩ | ⟨m, e, hm, hua⟩
  · have hsum : d.value = a.value + d.value := by rw [value_of_zero hua, zero_add]
    exact iff_of_true (add_of_value ha hd (isFinite_of_isTime hd) hsum).1
      (not_roundsUp_of_le (hsum ▸ value_le_largest hd))
  · obtain ⟨m', e', hnormal, hsum, hnearest⟩ := add_nearest hua hud
    rw [← hnearest _ _ normal_largest, not_lt, mul_le_largest hnormal]
    rcases hsum with ⟨htop, hfin, -⟩ | ⟨htop, hinf⟩
    · exact iff_of_true hfin htop
    · refine iff_of_false ?_ (not_le.2 htop)
      rw [isFinite_eq, hinf]
      exact Bool.false_ne_true

end Number

end RadioOccupancy
