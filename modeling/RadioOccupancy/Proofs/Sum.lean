import Mathlib
import RadioOccupancy.Proofs.Order

/-!
A time plus a duration is not before the time (`Number.le_add`).

A sum is rounded, and may be rounded down. But the time itself is a number that can be written, and what
can be written and is not above the exact sum is not above what this is rounded to (`round_positive`): the
significand is cut off at the exponent for the sum, which keeps all such numbers below
(`le_quotient_mul`), and then goes to one of its two neighbours, neither of which is less. A sum that is
too large to be written is infinite.
-/

namespace RadioOccupancy

namespace Number
open Float.Model Float.Model.UnpackedFloat

theorem unpack_add (a b : Number) :
    (a + b).unpack = UnpackedFloat.unpack .binary64 (UnpackedFloat.pack .binary64
      (UnpackedFloat.add .binary64 a.unpack b.unpack)) := rfl

/-! ### Rounding -/

theorem mantissa_shiftRight (em : ExtendedMantissa) (n : Nat) :
    (em >>> n).mantissa = em.mantissa / 2 ^ n := by
  change (n.repeat ExtendedMantissa.shiftRightOne em).mantissa = _
  induction n with
  | zero => simp [Nat.repeat]
  | succ n ih =>
    rw [Nat.repeat, pow_succ, ← Nat.div_div_eq_div_mul, ← ih]
    rfl

/-- Rounding goes to one of the two neighbours. -/
theorem roundedMantissa_eq (em : ExtendedMantissa) :
    em.roundedMantissa = em.mantissa ∨ em.roundedMantissa = em.mantissa + 1 := by
  obtain ⟨m, r, s⟩ := em
  have := Nat.mod_two_eq_zero_or_one m
  cases r <;> cases s <;>
    simp [ExtendedMantissa.roundedMantissa, ExtendedMantissa.accuracy, Accuracy.roundToNearestEven]
  omega

/-- The exponent in which a number is written. -/
def exponentFor (m : Nat) (e : Int) : Int :=
  max (m.log2 + 1 + e - 53) (-1074)

theorem shiftToExponent_eq (m : Nat) {e t : Int} (accuracy : Accuracy) (h : e ≤ t) :
    (shiftToExponent m e accuracy t).1.mantissa = m / 2 ^ (t - e).toNat ∧
      (shiftToExponent m e accuracy t).2 = t := by
  constructor
  · refine (mantissa_shiftRight _ _).trans ?_
    rcases accuracy with _ | _ | _ | _ <;> rfl
  · change e + ((t - e).toNat : Int) = _
    omega

/-- What a significand stands for with the two bits that are kept of what was cut off it, in units of its last
bit. The first of the two says whether a half or more was cut off, the second whether there was anything
besides that. -/
def StandsFor (em : ExtendedMantissa) (x : ℚ) : Prop :=
  match em.roundBit, em.stickyBit with
  | false, false => x = em.mantissa
  | false, true => em.mantissa < x ∧ x < em.mantissa + 1 / 2
  | true, false => x = em.mantissa + 1 / 2
  | true, true => em.mantissa + 1 / 2 < x ∧ x < em.mantissa + 1

namespace StandsFor

variable {em : ExtendedMantissa} {x : ℚ}

theorem shiftRightOne (h : StandsFor em x) : StandsFor em.shiftRightOne (x / 2) := by
  obtain ⟨m, r, s⟩ := em
  have hm : (m : ℚ) = 2 * (m / 2 : Nat) + (m % 2 : Nat) := by exact_mod_cast (Nat.div_add_mod m 2).symm
  rw [StandsFor] at h
  rw [StandsFor, ExtendedMantissa.shiftRightOne]
  rcases Nat.mod_two_eq_zero_or_one m with h2 | h2 <;> rw [h2] at hm <;> cases r <;> cases s <;>
    simp only [h2, bne_self_eq_false, Bool.or_false, Bool.or_true, Nat.reduceBneDiff] at h ⊢
  all_goals push_cast at hm
  all_goals first
    | linarith
    | exact ⟨by linarith [h.1], by linarith [h.2]⟩
    | exact ⟨by linarith, by linarith⟩

/-- Shifting keeps it. -/
theorem shiftRight (h : StandsFor em x) (n : Nat) : StandsFor (em >>> n) (x / 2 ^ n) := by
  change StandsFor (n.repeat ExtendedMantissa.shiftRightOne em) _
  induction n with
  | zero => simpa [Nat.repeat] using h
  | succ n ih =>
    rw [Nat.repeat, pow_succ, ← div_div]
    exact ih.shiftRightOne

/-- Rounding goes to the upper neighbour if that is nearer, or as near and the significand is odd. -/
theorem roundedMantissa_iff (h : StandsFor em x) : em.roundedMantissa = em.mantissa + 1 ↔
    1 < 2 * (x - em.mantissa) ∨ 1 = 2 * (x - em.mantissa) ∧ em.mantissa % 2 = 1 := by
  obtain ⟨m, r, s⟩ := em
  rw [StandsFor] at h
  rw [ExtendedMantissa.roundedMantissa, ExtendedMantissa.accuracy.eq_def]
  cases r <;> cases s <;> simp only at h ⊢
  · simp [Accuracy.roundToNearestEven, h]
  · refine iff_of_false (by simp [Accuracy.roundToNearestEven]) ?_
    rintro (hx | ⟨hx, -⟩) <;> linarith [h.2]
  · simp [Accuracy.roundToNearestEven, h]
  · exact iff_of_true rfl (Or.inl (by linarith [h.1]))

end StandsFor

/-- What is left of a significand when it is written with the exponent `t`. -/
def quotient (m : Nat) (e t : Int) : Nat :=
  m * 2 ^ (e - t).toNat / 2 ^ (t - e).toNat

theorem mul_two_pow_eq (m : Nat) (e t : Int) :
    (m : ℚ) * 2 ^ e * 2 ^ (t - e).toNat = (m * 2 ^ (e - t).toNat : Nat) * 2 ^ t := by
  push_cast
  rw [mul_assoc, mul_assoc, ← zpow_natCast, ← zpow_natCast, ← zpow_add₀ two_ne_zero,
    ← zpow_add₀ two_ne_zero]
  congr 2
  omega

/-- A number can be written with any smaller exponent. -/
theorem mul_two_pow_of_le (m : Nat) {e t : Int} (h : t ≤ e) :
    ((m * 2 ^ (e - t).toNat : Nat) : ℚ) * 2 ^ t = m * 2 ^ e := by
  rw [← mul_two_pow_eq, Int.toNat_eq_zero.2 (by omega : t - e ≤ 0), pow_zero, mul_one]

theorem quotient_mul_le (m : Nat) (e t : Int) : (quotient m e t : ℚ) * 2 ^ t ≤ m * 2 ^ e := by
  have h : ((quotient m e t : ℚ) * 2 ^ (t - e).toNat) ≤ (m * 2 ^ (e - t).toNat : Nat) := by
    exact_mod_cast Nat.div_mul_le_self (m * 2 ^ (e - t).toNat) (2 ^ (t - e).toNat)
  have hpos : (0 : ℚ) < 2 ^ (t - e).toNat := by positivity
  refine le_of_mul_le_mul_right ?_ hpos
  rw [mul_two_pow_eq, mul_right_comm]
  gcongr

theorem le_quotient {k m : Nat} {e t : Int} (h : (k : ℚ) * 2 ^ t ≤ m * 2 ^ e) : k ≤ quotient m e t := by
  rw [quotient, Nat.le_div_iff_mul_le (by positivity)]
  have hpos : (0 : ℚ) < 2 ^ t := by positivity
  have : ((k * 2 ^ (t - e).toNat : Nat) : ℚ) * 2 ^ t ≤ (m * 2 ^ (e - t).toNat : Nat) * 2 ^ t := by
    rw [← mul_two_pow_eq]
    push_cast
    rw [mul_right_comm]
    gcongr
  exact_mod_cast le_of_mul_le_mul_right this hpos

theorem log2_mul_two_pow {m : Nat} (hm : 0 < m) (n : Nat) : (m * 2 ^ n).log2 = m.log2 + n := by
  induction n with
  | zero => simp
  | succ n ih =>
    rw [pow_succ, ← mul_assoc, mul_comm _ 2, Nat.log2_two_mul (by positivity), ih]
    omega

theorem pos_of_mul_two_pow_pos {m : Nat} {e : Int} (h : (0 : ℚ) < m * 2 ^ e) : 0 < m := by
  refine Nat.pos_of_ne_zero ?_
  rintro rfl
  rw [Nat.cast_zero, zero_mul] at h
  exact h.false

/-- A number has the magnitude that its total exponent says. -/
theorem pow_le_of_log2 {m : Nat} (hm : 0 < m) (e : Int) : (2 : ℚ) ^ (m.log2 + e) ≤ m * 2 ^ e ∧
    (m : ℚ) * 2 ^ e < 2 ^ (m.log2 + 1 + e) := by
  have hpos : (0 : ℚ) < 2 ^ e := by positivity
  have hle : ((2 ^ m.log2 : Nat) : ℚ) ≤ m := by exact_mod_cast Nat.log2_self_le hm.ne'
  have hlt : (m : ℚ) < ((2 ^ (m.log2 + 1) : Nat) : ℚ) := by exact_mod_cast Nat.lt_log2_self
  constructor
  · rw [zpow_add₀ two_ne_zero, zpow_natCast]
    push_cast at hle
    gcongr
  · rw [zpow_add₀ two_ne_zero]
    push_cast at hlt
    gcongr
    exact_mod_cast hlt

/-- Written with its exponent, a number has a significand below the bound that fills all its bits,
unless the exponent is the least. -/
theorem normal_quotient {m : Nat} (hm : 0 < m) (e : Int) :
    Normal (quotient m e (exponentFor m e)) (exponentFor m e) := by
  obtain ⟨hle, hlt⟩ := pow_le_of_log2 hm e
  have ht : exponentFor m e = m.log2 + 1 + e - 53 ∨ exponentFor m e = -1074 := by
    unfold exponentFor
    omega
  have hmin : -1074 ≤ exponentFor m e := le_max_right _ _
  have htop : m.log2 + 1 + e ≤ 53 + exponentFor m e := by
    unfold exponentFor
    omega
  have hpos : (0 : ℚ) < 2 ^ exponentFor m e := by positivity
  refine ⟨?_, hmin, ?_⟩
  · have : (quotient m e (exponentFor m e) : ℚ) * 2 ^ exponentFor m e <
        2 ^ 53 * 2 ^ exponentFor m e := by
      calc (quotient m e (exponentFor m e) : ℚ) * 2 ^ exponentFor m e ≤ m * 2 ^ e :=
            quotient_mul_le ..
        _ < 2 ^ (m.log2 + 1 + e) := hlt
        _ ≤ 2 ^ (53 + exponentFor m e) := zpow_le_zpow_right₀ one_le_two htop
        _ = 2 ^ 53 * 2 ^ exponentFor m e := by
          rw [zpow_add₀ two_ne_zero]
          norm_num
    exact_mod_cast lt_of_mul_lt_mul_right this hpos.le
  · refine ht.imp (fun ht => le_quotient ?_) id
    calc ((2 ^ 52 : Nat) : ℚ) * 2 ^ exponentFor m e = 2 ^ (m.log2 + e) := by
          rw [Nat.cast_pow, Nat.cast_two, ← zpow_natCast, ← zpow_add₀ two_ne_zero]
          congr 1
          omega
      _ ≤ m * 2 ^ e := hle

/-- Nothing that can be written is lost when a number is written with its exponent. -/
theorem le_quotient_mul {k m : Nat} {e q : Int} (hk : Normal k q) (hm : 0 < m)
    (h : (k : ℚ) * 2 ^ q ≤ m * 2 ^ e) :
    (k : ℚ) * 2 ^ q ≤ quotient m e (exponentFor m e) * 2 ^ exponentFor m e := by
  rcases lt_or_ge q (exponentFor m e) with hq | hq
  · exact (mul_lt_mul_of_exponent_lt hk (normal_quotient hm e) hq).le
  · rw [← mul_two_pow_of_le k hq] at h ⊢
    gcongr
    exact le_quotient h

theorem exponentFor_of_normal {r : Nat} {t : Int} (h : Normal r t) : exponentFor r t = t := by
  have hlog : r.log2 < 53 := by
    by_cases hr : r = 0
    · simp [hr]
    · exact (Nat.log2_lt hr).2 h.lt
  have hleast := h.least
  rcases h.full with hfull | rfl
  · have : 52 ≤ r.log2 := (Nat.le_log2 (by omega)).2 hfull
    unfold exponentFor
    omega
  · unfold exponentFor
    omega

/-- The second shift of rounding. It carries a bit over if rounding has filled the significand, and
does nothing else. -/
theorem shift_rounded {n r : Nat} {t : Int} (hn : Normal n t) (hr : r = n ∨ r = n + 1) :
    ∃ m' e', (shiftToExponent r t .exact (exponentFor r t)).1.mantissa = m' ∧
      (shiftToExponent r t .exact (exponentFor r t)).2 = e' ∧ Normal m' e' ∧
        (r : ℚ) * 2 ^ t = m' * 2 ^ e' := by
  have hlt := hn.lt
  have hleast := hn.least
  by_cases hover : r = 2 ^ 53
  · have htop : exponentFor r t = t + 1 := by
      rw [hover, exponentFor, Nat.log2_two_pow]
      omega
    obtain ⟨hmant, hexp⟩ := shiftToExponent_eq r .exact (show t ≤ t + 1 by omega)
    have hone : (t + 1 - t).toNat = 1 := by omega
    rw [htop]
    refine ⟨2 ^ 52, t + 1, ?_, hexp, ⟨by norm_num, by omega, Or.inl le_rfl⟩, ?_⟩
    · rw [hmant, hover, hone]
      norm_num
    · rw [hover, zpow_add_one₀ two_ne_zero]
      push_cast
      ring
  · have hnormal : Normal r t := ⟨by omega, hleast, hn.full.imp_left fun h => by omega⟩
    obtain ⟨hmant, hexp⟩ := shiftToExponent_eq r .exact (le_refl t)
    rw [exponentFor_of_normal hnormal]
    refine ⟨r, t, ?_, hexp, hnormal, rfl⟩
    rw [hmant, sub_self, Int.toNat_zero, pow_zero, Nat.div_one]

/-- A number with a significand, or zero. -/
def finiteOrZero (s : Sign) (m : Nat) (e : Int) : UnpackedFloat :=
  if h : m = 0 then .zero s else .finite s m e (Nat.pos_of_ne_zero h)

theorem roundWithAccuracy_eq (s : Sign) {m : Nat} {e t : Int} (accuracy : Accuracy)
    (hfor : exponentFor m e = t) (hexp : (shiftToExponent m e accuracy t).2 = t) :
    roundWithAccuracy .binary64 s m e accuracy =
      let r := (shiftToExponent m e accuracy t).1.roundedMantissa
      let shifted := shiftToExponent r t .exact (exponentFor r t)
      finiteOrZero s shifted.1.mantissa shifted.2 := by
  subst hfor
  change (let first := shiftToExponent m e accuracy (exponentFor m e)
    let r := first.1.roundedMantissa
    let shifted := shiftToExponent r first.2 .exact (exponentFor r first.2)
    finiteOrZero s shifted.1.mantissa shifted.2) = _
  dsimp only
  rw [hexp]

/-- Of two neighbours, what lies between them is rounded to the upper one: it is nearer, or as near and the
significand `n` of the lower one is odd. -/
def RoundsUp (n : Nat) (t : Int) (v : ℚ) : Prop :=
  2 ^ t < 2 * (v - n * 2 ^ t) ∨ 2 ^ t = 2 * (v - n * 2 ^ t) ∧ n % 2 = 1

theorem not_roundsUp_of_le {n : Nat} {t : Int} {v : ℚ} (h : v ≤ n * 2 ^ t) : ¬RoundsUp n t v := by
  have hpos : (0 : ℚ) < 2 ^ t := by positivity
  rintro (hup | ⟨hup, -⟩) <;> linarith

/-- Rounding begins with a shift to the exponent for the number, and goes to a neighbour by what was cut off.
-/
theorem round_eq {m : Nat} (hm : 0 < m) (e : Int) :
    ∃ r, (r = quotient m e (exponentFor m e) ∨ r = quotient m e (exponentFor m e) + 1) ∧
      (r = quotient m e (exponentFor m e) + 1 ↔
        RoundsUp (quotient m e (exponentFor m e)) (exponentFor m e) (m * 2 ^ e)) ∧
      round .binary64 .positive m e =
        let shifted := shiftToExponent r (exponentFor m e) .exact (exponentFor r (exponentFor m e))
        finiteOrZero .positive shifted.1.mantissa shifted.2 := by
  have hround : round .binary64 .positive m e =
      roundWithAccuracy .binary64 .positive (m * 2 ^ (e - exponentFor m e).toNat) (min e (exponentFor m e))
        .exact := by
    change roundWithAccuracy .binary64 .positive (m <<< (e - exponentFor m e).toNat)
      (e - (e - exponentFor m e).toNat) .exact = _
    rw [Nat.shiftLeft_eq]
    congr 1
    omega
  have hkeep : exponentFor (m * 2 ^ (e - exponentFor m e).toNat) (min e (exponentFor m e)) =
      exponentFor m e := by
    unfold exponentFor
    rw [log2_mul_two_pow hm]
    omega
  have hamount : (exponentFor m e - min e (exponentFor m e)).toNat = (exponentFor m e - e).toNat := by omega
  obtain ⟨hmant, hexp⟩ := shiftToExponent_eq (m * 2 ^ (e - exponentFor m e).toNat) .exact
    (min_le_right e (exponentFor m e))
  have hnext := roundedMantissa_eq (shiftToExponent (m * 2 ^ (e - exponentFor m e).toNat)
    (min e (exponentFor m e)) .exact (exponentFor m e)).1
  have hstands : StandsFor (shiftToExponent (m * 2 ^ (e - exponentFor m e).toNat)
      (min e (exponentFor m e)) .exact (exponentFor m e)).1
      ((m * 2 ^ (e - exponentFor m e).toNat : Nat) / 2 ^ (exponentFor m e - min e (exponentFor m e)).toNat) :=
    @StandsFor.shiftRight ⟨_, false, false⟩ _ rfl _
  have hup := hstands.roundedMantissa_iff
  rw [hamount] at hmant hup
  rw [hmant] at hnext hup
  refine ⟨_, hnext, hup.trans ?_, hround.trans (roundWithAccuracy_eq .positive .exact hkeep hexp)⟩
  -- in units of the last bit that is kept, the number is its significand divided by what was cut off
  have hunits : ((m * 2 ^ (e - exponentFor m e).toNat : Nat) : ℚ) / 2 ^ (exponentFor m e - e).toNat *
      2 ^ exponentFor m e = m * 2 ^ e := by
    rw [div_mul_eq_mul_div, div_eq_iff (by positivity), mul_two_pow_eq]
  have hpos : (0 : ℚ) < 2 ^ exponentFor m e := by positivity
  rw [RoundsUp, ← hunits, ← quotient, ← sub_mul, ← mul_assoc, lt_mul_iff_one_lt_left hpos,
    eq_comm (a := (2 : ℚ) ^ exponentFor m e), mul_eq_right₀ hpos.ne', eq_comm (a := (1 : ℚ))]

/-- A positive number is rounded to the nearest that can be written. -/
theorem round_spec {m : Nat} (hm : 0 < m) (e : Int) :
    let n := quotient m e (exponentFor m e)
    let t := exponentFor m e
    ∃ m' e', Normal m' e' ∧ round .binary64 .positive m e = finiteOrZero .positive m' e' ∧
      (RoundsUp n t (m * 2 ^ e) ∧ (m' : ℚ) * 2 ^ e' = (n + 1 : Nat) * 2 ^ t ∨
        ¬RoundsUp n t (m * 2 ^ e) ∧ (m' : ℚ) * 2 ^ e' = n * 2 ^ t) := by
  intro n t
  obtain ⟨r, hr, hup, hround⟩ := round_eq hm e
  obtain ⟨m', e', rfl, rfl, hnormal, heq⟩ := shift_rounded (normal_quotient hm e) hr
  refine ⟨_, _, hnormal, hround, ?_⟩
  by_cases hnext : r = n + 1
  · exact Or.inl ⟨hup.1 hnext, by rw [← heq, hnext]⟩
  · exact Or.inr ⟨fun h => hnext (hup.2 h), by rw [← heq, hr.resolve_right hnext]⟩

/-- A positive number that can be written is not above what a larger one is rounded to. -/
theorem round_positive {k m : Nat} {e q : Int} (hk : Normal k q) (hpos : 0 < k)
    (h : (k : ℚ) * 2 ^ q ≤ m * 2 ^ e) : ∃ m' e', ∃ hm' : 0 < m',
      round .binary64 .positive m e = .finite .positive m' e' hm' ∧ Normal m' e' ∧
        (k : ℚ) * 2 ^ q ≤ m' * 2 ^ e' := by
  have hk0 : (0 : ℚ) < k * 2 ^ q := by positivity
  have hm : 0 < m := pos_of_mul_two_pow_pos (hk0.trans_le h)
  obtain ⟨m', e', hnormal, hround, hvalue⟩ := round_spec hm e
  have hle : (k : ℚ) * 2 ^ q ≤ m' * 2 ^ e' := by
    refine (le_quotient_mul hk hm h).trans ?_
    rcases hvalue with ⟨-, hvalue⟩ | ⟨-, hvalue⟩ <;> rw [hvalue]
    gcongr
    omega
  have hm' : 0 < m' := pos_of_mul_two_pow_pos (hk0.trans_le hle)
  exact ⟨_, _, hm', hround.trans (dif_neg hm'.ne'), hnormal, hle⟩

/-! ### Packing -/

theorem unpackSign_packComponents (s : Sign) (e : BitVec 11) (m : BitVec 52) :
    Sign.ofBitVec (unpackSign (packComponents .binary64 s e m)) = s := by
  have h : unpackSign (packComponents .binary64 s e m) = s.toBitVec := by
    change (s.toBitVec ++ e ++ m).extractLsb' 63 1 = s.toBitVec
    rw [BitVec.extractLsb'_append_eq_of_le (by decide),
      BitVec.extractLsb'_append_eq_of_le (by decide)]
    cases s <;> rfl
  rw [h]
  cases s <;> rfl

/-- A significand that fills all its bits is unpacked as it was packed. -/
theorem unpack_packComponents {e : BitVec 11} (h : e ≠ -1#11) (h' : e ≠ 0#11) (m : BitVec 52) :
    UnpackedFloat.unpack .binary64 (packComponents .binary64 .positive e m) =
      .finite .positive (2 ^ 52 + m.toNat) (e.toNat - 1075) (by omega) := by
  have happ : (1#1 ++ m).toNat = 2 ^ 52 + m.toNat := by
    rw [BitVec.toNat_append, ← Nat.shiftLeft_add_eq_or_of_lt m.isLt]
    rfl
  rw [UnpackedFloat.unpack]
  simp only [unpackMantissa_packComponents, unpackExponent_packComponents,
    unpackSign_packComponents, if_neg h, if_neg h', happ]
  rfl

/-- So is one that does not. -/
theorem unpack_packComponents_zero {m : BitVec 52} (h : m ≠ 0#52) :
    UnpackedFloat.unpack .binary64 (packComponents .binary64 .positive 0#11 m) =
      .finite .positive m.toNat (-1074) (Nat.pos_of_ne_zero fun h0 => h (BitVec.eq_of_toNat_eq h0)) := by
  rw [UnpackedFloat.unpack]
  simp only [unpackMantissa_packComponents, unpackExponent_packComponents,
    unpackSign_packComponents]
  rw [if_neg (by decide), if_pos trivial, dif_neg h]
  rfl

theorem biasedExponent_eq (e : Int) :
    (e + Format.binary64.exponentBias + Format.binary64.mantissaBitsWithoutImplicit).toNat =
      (e + 1075).toNat := by
  change (e + (1023 : Nat) + (52 : Nat)).toNat = _
  congr 1
  omega

/-- A positive number that can be written is kept. -/
theorem unpack_pack_of_le {m : Nat} {e : Int} (h : 0 < m) (hn : Normal m e) (htop : e ≤ 971) :
    UnpackedFloat.unpack .binary64 (UnpackedFloat.pack .binary64 (.finite .positive m e h)) =
      .finite .positive m e h := by
  have hlt := hn.lt
  have hleast := hn.least
  have hsmall : ¬2048 ≤ (e + 1075).toNat + 1 := by omega
  rw [UnpackedFloat.pack]
  dsimp only
  rw [biasedExponent_eq, if_neg hsmall]
  split
  · next hlog =>
    have hlog : m.log2 = 52 := by
      change m.log2 + 1 = 53 at hlog
      omega
    have hfull := ((Nat.log2_eq_iff h.ne').1 hlog).1
    have hexp : ((BitVec.ofNat 11 (e + 1075).toNat).toNat : Int) - 1075 = e := by
      rw [BitVec.toNat_ofNat]
      omega
    have hmant : 2 ^ 52 + (BitVec.ofNat 52 m).toNat = m := by
      rw [BitVec.toNat_ofNat]
      omega
    rw [unpack_packComponents]
    · simp only [hexp, hmant]
    · intro h0
      rw [h0, BitVec.toNat_neg, BitVec.toNat_ofNat] at hexp
      omega
    · intro h0
      rw [h0, BitVec.toNat_ofNat] at hexp
      omega
  · next hlog =>
    have hsub : m < 2 ^ 52 := by
      by_contra hge
      exact hlog (congrArg (· + 1) ((Nat.log2_eq_iff h.ne').2 ⟨not_lt.1 hge, hlt⟩))
    have hmant : (BitVec.ofNat 52 m).toNat = m := by
      rw [BitVec.toNat_ofNat]
      omega
    have he : e = -1074 := hn.full.resolve_left (by omega)
    rw [unpack_packComponents_zero]
    · simp only [hmant, he]
    · intro h0
      rw [h0] at hmant
      exact h.ne hmant

/-- One that is too large for that counts as infinite. -/
theorem unpack_pack_of_lt {m : Nat} {e : Int} (h : 0 < m) (htop : 971 < e) :
    UnpackedFloat.unpack .binary64 (UnpackedFloat.pack .binary64 (.finite .positive m e h)) =
      .infinity .positive := by
  have hlarge : 2048 ≤ (e + 1075).toNat + 1 := by omega
  rw [UnpackedFloat.pack]
  dsimp only
  rw [biasedExponent_eq, if_pos hlarge]
  rfl

/-! ### Sums -/

/-- A time is zero or positive. -/
theorem unpack_of_isTime {x : Number} (h : x.isTime) :
    (∃ s, x.unpack = .zero s) ∨ ∃ m e, ∃ hm : 0 < m, x.unpack = .finite .positive m e hm := by
  have hnonneg := value_nonneg h
  obtain ⟨s, hu⟩ | ⟨s, m, e, hm, hu⟩ := unpack_of_isFinite (isFinite_of_isTime h)
  · exact Or.inl ⟨s, hu⟩
  · cases s with
    | positive => exact Or.inr ⟨m, e, hm, hu⟩
    | negative =>
      have : (0 : ℚ) < m * 2 ^ e := by positivity
      rw [value_of_negative hu] at hnonneg
      linarith

/-- What a positive number that can be written is packed to, or could be but for its size. -/
theorem value_of_pack {x : Number} {m : Nat} {e : Int} {h : 0 < m} (hn : Normal m e)
    (hx : x.unpack = UnpackedFloat.unpack .binary64
      (UnpackedFloat.pack .binary64 (.finite .positive m e h))) :
    e ≤ 971 ∧ x.isFinite ∧ x.value = m * 2 ^ e ∨ 971 < e ∧ x.unpack = .infinity .positive := by
  rcases le_or_gt e 971 with htop | htop
  · rw [unpack_pack_of_le h hn htop] at hx
    refine Or.inl ⟨htop, ?_, value_of_positive hx⟩
    rw [isFinite_eq, hx]
    rfl
  · exact Or.inr ⟨htop, hx.trans (unpack_pack_of_lt h htop)⟩

/-- The sum of two positive numbers is their exact sum, rounded. -/
theorem add_positive {m n : Nat} {e f : Int} (hm : 0 < m) (hn : 0 < n) :
    ∃ k : Nat, UnpackedFloat.add .binary64 (.finite .positive m e hm) (.finite .positive n f hn) =
      round .binary64 .positive k (min e f) ∧ (k : ℚ) * 2 ^ min e f = m * 2 ^ e + n * 2 ^ f := by
  refine ⟨m * 2 ^ (e - min e f).toNat + n * 2 ^ (f - min e f).toNat, ?_, ?_⟩
  · change UnpackedFloat.normalize .binary64 (((m <<< (e - min e f).toNat : Nat) : Int) +
      ((n <<< (f - min e f).toNat : Nat) : Int)) (min e f) .positive = _
    rw [Nat.shiftLeft_eq, Nat.shiftLeft_eq, ← Nat.cast_add, UnpackedFloat.normalize, Int.compare_eq_gt.2]
    · rfl
    · exact_mod_cast Nat.add_pos_left (by positivity) _
  · rw [Nat.cast_add, add_mul, mul_two_pow_of_le m (min_le_left e f),
      mul_two_pow_of_le n (min_le_right e f)]

/-- A sum of two times is not below the first of them. It may have become infinite. -/
theorem add_of_isTime {a d : Number} (ha : a.isTime) (hd : d.isTime) :
    (a + d).isFinite ∧ a.value ≤ (a + d).value ∨ (a + d).unpack = .infinity .positive := by
  have hsum := unpack_add a d
  rcases unpack_of_isTime ha with ⟨s, hua⟩ | ⟨m, e, hm, hua⟩ <;>
    rcases unpack_of_isTime hd with ⟨t, hud⟩ | ⟨n, f, hn, hud⟩ <;> rw [hua, hud] at hsum
  · have hzero : ∃ s, (a + d).unpack = .zero s := by
      rw [hsum]
      cases s <;> cases t <;> exact ⟨_, rfl⟩
    obtain ⟨s, hzero⟩ := hzero
    refine Or.inl ⟨?_, ?_⟩
    · rw [isFinite_eq, hzero]
      rfl
    · rw [value_of_zero hua, value_of_zero hzero]
  · refine (value_of_pack (normal_of_unpack hud) hsum).imp (fun ⟨_, hfin, hv⟩ => ⟨hfin, ?_⟩) And.right
    rw [value_of_zero hua, hv]
    positivity
  · refine (value_of_pack (normal_of_unpack hua) hsum).imp (fun ⟨_, hfin, hv⟩ => ⟨hfin, ?_⟩) And.right
    rw [value_of_positive hua, hv]
  · obtain ⟨k, hadd, hk⟩ := add_positive (e := e) (f := f) hm hn
    have hle : (m : ℚ) * 2 ^ e ≤ k * 2 ^ min e f := by
      rw [hk]
      exact le_add_of_nonneg_right (by positivity)
    obtain ⟨m', e', hm', hround, hnormal, hle⟩ := round_positive (normal_of_unpack hua) hm hle
    rw [hadd, hround] at hsum
    refine (value_of_pack hnormal hsum).imp (fun ⟨_, hfin, hv⟩ => ⟨hfin, ?_⟩) And.right
    rw [value_of_positive hua, hv]
    exact hle

/-- A time plus a duration is not before the time. -/
theorem le_add {a d : Number} (ha : a.isTime) (hd : d.isTime) : a ≤ a + d := by
  rcases add_of_isTime ha hd with ⟨hfin, hle⟩ | hinf
  · exact (le_iff (isFinite_of_isTime ha) hfin).2 hle
  · exact Number.le_of_lt (lt_infinity (isFinite_of_isTime ha) hinf)

end Number

end RadioOccupancy
