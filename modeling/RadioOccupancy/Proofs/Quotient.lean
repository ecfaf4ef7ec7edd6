import RadioOccupancy.Proofs.Negation

/-!
What quotients are rounded to, on both sides of zero.

        k 2 ^ t    middle    (k + 1) 2 ^ t
    ------|----------|----------|------
           <- down       up ->

A quotient is rounded up just if it lies behind the middle between two neighbours (`mul_lt_div_iff`). It does
not lie on the middle, which has one bit more than a dividend (`div_ne_middle`). So rounding keeps the order
of quotients by the same divisor (`value_div_le`), and says which of them are too large (`div_cases`).
-/

namespace RadioOccupancy

namespace Number
open Float.Model Float.Model.UnpackedFloat

variable {m n k : Nat} {e f t : Int} {v w : ℚ} {a a' b x : Number}

/-! ### The middle between two neighbours -/

/-- The middle between a significand that fills its bits and the next one is not a quotient. -/
theorem div_ne_middle (hm : 0 < m) (hlt : m < 2 ^ 53) (hn : 0 < n) (hk : 2 ^ 52 ≤ k) :
    (m : ℚ) * 2 ^ e / (n * 2 ^ f) ≠ (2 * k + 1 : Nat) * 2 ^ (t - 1) := by
  intro h
  have hpos : (0 : ℚ) < n * 2 ^ f := by positivity
  rw [div_eq_iff hpos.ne'] at h
  have hmoved := mul_two_pow_eq m e (t - 1 + f)
  have hwhole : (2 * k + 1) * (n * 2 ^ (t - 1 + f - e).toNat) = m * 2 ^ (e - (t - 1 + f)).toNat := by
    have hscale : (0 : ℚ) < 2 ^ (t - 1 + f) := by positivity
    have hcast : (((2 * k + 1) * (n * 2 ^ (t - 1 + f - e).toNat) : Nat) : ℚ) =
        (m * 2 ^ (e - (t - 1 + f)).toNat : Nat) := by
      refine mul_right_cancel₀ hscale.ne' ?_
      rw [← hmoved, h, zpow_add₀ two_ne_zero]
      push_cast
      ring
    exact_mod_cast hcast
  have hodd : Nat.Coprime (2 * k + 1) (2 ^ (e - (t - 1 + f)).toNat) :=
    (Nat.coprime_two_right.2 (odd_two_mul_add_one k)).pow_right _
  have hle := Nat.le_of_dvd hm (hodd.dvd_of_dvd_mul_right (Dvd.intro _ hwhole))
  omega

/-- The middle behind a significand. -/
theorem middle_eq (k : Nat) (t : Int) : ((2 * k + 1 : Nat) : ℚ) * 2 ^ (t - 1) = k * 2 ^ t + 2 ^ (t - 1) := by
  have hpow : (2 : ℚ) ^ t = 2 * 2 ^ (t - 1) := by rw [← zpow_one_add₀ two_ne_zero, add_sub_cancel]
  rw [hpow]
  push_cast
  ring

/-- The middle before the next one. -/
theorem middle_eq_sub (k : Nat) (t : Int) :
    ((2 * k + 1 : Nat) : ℚ) * 2 ^ (t - 1) = (k + 1 : Nat) * 2 ^ t - 2 ^ (t - 1) := by
  have hpow : (2 : ℚ) ^ t = 2 * 2 ^ (t - 1) := by rw [← zpow_one_add₀ two_ne_zero, add_sub_cancel]
  rw [hpow]
  push_cast
  ring

theorem roundsUp_iff (hne : v ≠ (2 * k + 1 : Nat) * 2 ^ (t - 1)) :
    RoundsUp k t v ↔ (2 * k + 1 : Nat) * 2 ^ (t - 1) < v := by
  have hpow : (2 : ℚ) ^ t = 2 * 2 ^ (t - 1) := by rw [← zpow_one_add₀ two_ne_zero, add_sub_cancel]
  push_cast at hne ⊢
  rw [RoundsUp, hpow]
  constructor
  · rintro (hup | ⟨hup, -⟩)
    · linarith
    · exact absurd (by linarith) hne
  · intro h
    exact Or.inl (by linarith)

theorem RoundsUp.mono (h : RoundsUp k t v) (hle : v ≤ w) : RoundsUp k t w := by
  rcases h with h | ⟨h, hodd⟩
  · exact Or.inl (by linarith)
  · exact hle.lt_or_eq.elim (fun hlt => Or.inl (by linarith)) fun heq => Or.inr ⟨heq ▸ h, hodd⟩

theorem Nearest.mono (h : Nearest v m e) (h' : Nearest w n f) (hle : v ≤ w) :
    (m : ℚ) * 2 ^ e ≤ n * 2 ^ f := by
  by_contra! hlt
  have hup := (h.past n f h'.normal).1 hlt
  exact lt_irrefl _ ((h'.past n f h'.normal).2 (hup.mono hle))

/-! ### Quotients of positive numbers -/

section Positive

variable (ha : a.isFinite) (hpos : 0 < a.value) (hb : b.isFinite) (hpos' : 0 < b.value)

include ha hpos hb hpos'

theorem quotient_ne_middle (hk : 2 ^ 52 ≤ k) (t : Int) :
    a.value / b.value ≠ (2 * k + 1 : Nat) * 2 ^ (t - 1) := by
  obtain ⟨m, e, hm, hua⟩ := unpack_of_pos ha hpos
  obtain ⟨n, f, hn, hub⟩ := unpack_of_pos hb hpos'
  rw [value_of_positive hua, value_of_positive hub]
  exact div_ne_middle hm (normal_of_unpack hua).lt hn hk

/-- A quotient is rounded past a number just if it lies behind the middle between this and the next. -/
theorem mul_lt_div_iff (hx : (a / b).isFinite) (hk : Normal k t) (hfull : 2 ^ 52 ≤ k) :
    (k : ℚ) * 2 ^ t < (a / b).value ↔ (2 * k + 1 : Nat) * 2 ^ (t - 1) < a.value / b.value := by
  obtain ⟨m, e, hnearest, hvalue⟩ := (rounded_div ha hpos hb hpos').nearest_of_isFinite hx
  rw [hvalue, hnearest.past k t hk, roundsUp_iff (quotient_ne_middle ha hpos hb hpos' hfull t)]

theorem div_le_mul_iff (hx : (a / b).isFinite) (hk : Normal k t) (hfull : 2 ^ 52 ≤ k) :
    (a / b).value ≤ k * 2 ^ t ↔ a.value / b.value < (2 * k + 1 : Nat) * 2 ^ (t - 1) := by
  rw [← not_lt, mul_lt_div_iff ha hpos hb hpos' hx hk hfull, not_lt]
  exact (quotient_ne_middle ha hpos hb hpos' hfull t).le_iff_lt

/-- And it is rounded to the next one at least. -/
theorem succ_mul_le_div_iff (hx : (a / b).isFinite) (hk : Normal k t) (hfull : 2 ^ 52 ≤ k) :
    ((k + 1 : Nat) : ℚ) * 2 ^ t ≤ (a / b).value ↔ (2 * k + 1 : Nat) * 2 ^ (t - 1) < a.value / b.value := by
  rw [← mul_lt_div_iff ha hpos hb hpos' hx hk hfull]
  obtain ⟨m, e, hnearest, hvalue⟩ := (rounded_div ha hpos hb hpos').nearest_of_isFinite hx
  rw [hvalue]
  have hstep : (k : ℚ) * 2 ^ t < (k + 1 : Nat) * 2 ^ t := by
    have : (0 : ℚ) < 2 ^ t := by positivity
    push_cast
    linarith
  exact ⟨hstep.trans_le, succ_mul_le hk hnearest.normal⟩

/-- A quotient is infinite from the middle of the gap after the largest number on. -/
theorem isFinite_div_iff : (a / b).isFinite ↔ a.value / b.value < 2 ^ 1024 - 2 ^ 970 := by
  obtain ⟨m, e, hnearest, h⟩ := rounded_div ha hpos hb hpos'
  rw [← not_le, ← roundsUp_largest, ← hnearest.past _ _ normal_largest, not_lt,
    mul_le_largest hnearest.normal]
  rcases h with ⟨htop, hx, -⟩ | ⟨htop, hinf⟩
  · exact iff_of_true hx htop
  · rw [isFinite_eq, hinf]
    exact iff_of_false Bool.false_ne_true htop.not_ge

theorem div_infinite (hx : ¬(a / b).isFinite) : (a / b).unpack = .infinity .positive := by
  obtain ⟨m, e, -, ⟨-, hfin, -⟩ | ⟨-, hinf⟩⟩ := rounded_div ha hpos hb hpos'
  · exact absurd hfin hx
  · exact hinf

end Positive

/-! ### Quotients of all numbers -/

section Signed

theorem unpack_of_value_zero (ha : a.isFinite) (hzero : a.value = 0) : ∃ s, a.unpack = .zero s := by
  rcases unpack_of_isTime (isTime_iff.2 ⟨ha, hzero.ge⟩) with hu | ⟨m, e, hm, hu⟩
  · exact hu
  · rw [value_of_positive hu] at hzero
    exact absurd hzero (by positivity)

variable (ha : a.isFinite) (hb : b.isFinite) (hpos : 0 < b.value)

include ha hb hpos

theorem div_zero_left (hzero : a.value = 0) : (a / b).isFinite ∧ (a / b).value = 0 := by
  obtain ⟨s, hua⟩ := unpack_of_value_zero ha hzero
  obtain ⟨n, f, hn, hub⟩ := unpack_of_pos hb hpos
  have hu := unpack_div a b
  rw [hua, hub] at hu
  have hzero := unpack_of_written_zero hu
  exact ⟨isFinite_of_zero hzero, value_of_zero hzero⟩

/-- A quotient that is not too large is finite, and has the sign of the dividend if it is. -/
theorem div_cases :
    (|a.value / b.value| < 2 ^ 1024 - 2 ^ 970 ∧ (a / b).isFinite) ∨
      (2 ^ 1024 - 2 ^ 970 ≤ a.value / b.value ∧ (a / b).unpack = .infinity .positive) ∨
      (a.value / b.value ≤ -(2 ^ 1024 - 2 ^ 970) ∧ (a / b).unpack = .infinity .negative) := by
  rcases lt_trichotomy a.value 0 with hneg | hzero | hpos'
  · have hneg' : 0 < (-a).value := by
      rw [value_neg]
      linarith
    have ha' := (isFinite_neg a).trans ha
    have hiff := isFinite_div_iff ha' hneg' hb hpos
    rw [isFinite_neg_div, value_neg, neg_div] at hiff
    by_cases hx : (a / b).isFinite
    · refine Or.inl ⟨?_, hx⟩
      rw [abs_of_neg (div_neg_of_neg_of_pos hneg hpos)]
      exact hiff.1 hx
    · have hinf := div_infinite ha' hneg' hb hpos (by rwa [isFinite_neg_div])
      rw [unpack_neg_div] at hinf
      refine Or.inr (Or.inr ⟨?_, ?_⟩)
      · exact le_neg.2 (not_lt.1 fun hlt => hx (hiff.2 hlt))
      · rw [← neg_neg_unpacked (a / b).unpack, hinf]
        rfl
  · refine Or.inl ⟨?_, (div_zero_left ha hb hpos hzero).1⟩
    rw [hzero, zero_div, abs_zero]
    exact sub_pos.2 (pow_lt_pow_right₀ one_lt_two (by norm_num))
  · have hiff := isFinite_div_iff ha hpos' hb hpos
    by_cases hx : (a / b).isFinite
    · refine Or.inl ⟨?_, hx⟩
      rw [abs_of_pos (div_pos hpos' hpos)]
      exact hiff.1 hx
    · exact Or.inr (Or.inl ⟨not_lt.1 fun hlt => hx (hiff.2 hlt), div_infinite ha hpos' hb hpos hx⟩)

/-- Quotients are finite up to the middle of the gap after the largest number. -/
theorem isFinite_div_iff_abs : (a / b).isFinite ↔ |a.value| < (2 ^ 1024 - 2 ^ 970) * b.value := by
  have hquot : |a.value| / b.value = |a.value / b.value| := by rw [abs_div, abs_of_pos hpos]
  rw [← div_lt_iff₀ hpos, hquot]
  rcases div_cases ha hb hpos with ⟨hlt, hx⟩ | ⟨hle, hinf⟩ | ⟨hle, hinf⟩
  · exact iff_of_true hx hlt
  · rw [isFinite_eq, hinf]
    exact iff_of_false Bool.false_ne_true (hle.trans (le_abs_self _)).not_gt
  · rw [isFinite_eq, hinf]
    exact iff_of_false Bool.false_ne_true ((le_neg.2 hle).trans (neg_le_abs _)).not_gt

theorem isFinite_div_of_abs_le (hle : |a.value| ≤ 2 ^ 51 * b.value) : (a / b).isFinite := by
  have hpow : (2 : ℚ) ^ 1024 = 2 ^ 54 * 2 ^ 970 := pow_add 2 54 970
  have hpow' : (2 : ℚ) ^ 51 ≤ 2 ^ 970 := pow_le_pow_right₀ one_le_two (by norm_num)
  rw [isFinite_div_iff_abs ha hb hpos, hpow]
  refine hle.trans_lt (mul_lt_mul_of_pos_right ?_ hpos)
  generalize (2 : ℚ) ^ 970 = g at hpow'
  linarith

theorem isFinite_div_of_one_le (hle : 1 ≤ b.value) : (a / b).isFinite := by
  have habs : Number.isTime a.abs :=
    isTime_iff.2 ⟨(isFinite_abs a).trans ha, by rw [value_abs]; exact abs_nonneg _⟩
  have hlargest := value_le_largest habs
  have hbelow : (2 ^ 53 - 1 : Nat) * 2 ^ (971 : Int) < (2 : ℚ) ^ 1024 - 2 ^ 970 :=
    not_le.1 ((roundsUp_largest _).not.1 (not_roundsUp_of_le le_rfl))
  rw [value_abs] at hlargest
  rw [isFinite_div_iff_abs ha hb hpos]
  have hlt := hlargest.trans_lt hbelow
  exact hlt.trans_le (le_mul_of_one_le_right ((abs_nonneg _).trans hlt.le) hle)

theorem value_div_nonneg (hx : (a / b).isFinite) (hle : 0 ≤ a.value) : 0 ≤ (a / b).value := by
  rcases hle.eq_or_lt with hzero | hpos'
  · exact (div_zero_left ha hb hpos hzero.symm).2.ge
  · exact (rounded_div ha hpos' hb hpos).value_nonneg hx

theorem value_div_nonpos (hx : (a / b).isFinite) (hle : a.value ≤ 0) : (a / b).value ≤ 0 := by
  have hnonneg := value_div_nonneg ((isFinite_neg a).trans ha) hb hpos ((isFinite_neg_div a b).trans hx)
    (by rw [value_neg]; linarith)
  rw [value_neg_div] at hnonneg
  linarith

theorem value_div_le_of_pos (ha' : a'.isFinite) (hpos' : 0 < a.value) (hle : a.value ≤ a'.value)
    (hx : (a / b).isFinite) (hx' : (a' / b).isFinite) : (a / b).value ≤ (a' / b).value := by
  obtain ⟨m, e, hnearest, hvalue⟩ := (rounded_div ha hpos' hb hpos).nearest_of_isFinite hx
  obtain ⟨n, f, hnearest', hvalue'⟩ := (rounded_div ha' (hpos'.trans_le hle) hb hpos).nearest_of_isFinite hx'
  rw [hvalue, hvalue']
  exact hnearest.mono hnearest' (div_le_div_of_nonneg_right hle hpos.le)

/-- Quotients by the same divisor are ordered as their dividends are. -/
theorem value_div_le (ha' : a'.isFinite) (hle : a.value ≤ a'.value) (hx : (a / b).isFinite)
    (hx' : (a' / b).isFinite) : (a / b).value ≤ (a' / b).value := by
  rcases lt_or_ge 0 a.value with hpos' | hnonpos
  · exact value_div_le_of_pos ha hb hpos ha' hpos' hle hx hx'
  · rcases lt_or_ge a'.value 0 with hneg | hnonneg
    · have hflip := value_div_le_of_pos ((isFinite_neg a').trans ha') hb hpos ((isFinite_neg a).trans ha)
        (by rw [value_neg]; linarith) (by rw [value_neg, value_neg]; linarith)
        ((isFinite_neg_div a' b).trans hx') ((isFinite_neg_div a b).trans hx)
      rw [value_neg_div, value_neg_div] at hflip
      linarith
    · exact (value_div_nonpos ha hb hpos hx hnonpos).trans (value_div_nonneg ha' hb hpos hx' hnonneg)

/-- A quotient is not above a power of two unless it is so before it is rounded. -/
theorem abs_value_div_le (hx : (a / b).isFinite) (hf : -1022 ≤ f) (hle : |a.value| ≤ 2 ^ f * b.value) :
    |(a / b).value| ≤ 2 ^ f := by
  have habove {c : Number} (hc : c.isFinite) (hcx : (c / b).isFinite) (hcle : c.value ≤ 2 ^ f * b.value) :
      (c / b).value ≤ 2 ^ f := by
    rcases le_or_gt c.value 0 with hnonpos | hcpos
    · exact (value_div_nonpos hc hb hpos hcx hnonpos).trans (by positivity)
    · by_contra! hlt
      exact ((rounded_div hc hcpos hb hpos).pow_lt hcx hf hlt).not_ge ((div_le_iff₀ hpos).2 hcle)
  have hneg := habove ((isFinite_neg a).trans ha) ((isFinite_neg_div a b).trans hx)
    (by rw [value_neg]; exact (neg_le_abs _).trans hle)
  rw [value_neg_div] at hneg
  exact abs_le'.2 ⟨habove ha hx ((le_abs_self _).trans hle), hneg⟩

/-- Dividends of one value have quotients of one value. -/
theorem value_div_congr (ha' : a'.isFinite) (heq : a'.value = a.value) (hx : (a / b).isFinite) :
    (a' / b).isFinite ∧ (a' / b).value = (a / b).value := by
  have hx' : (a' / b).isFinite := by
    rw [isFinite_div_iff_abs ha' hb hpos, heq, ← isFinite_div_iff_abs ha hb hpos]
    exact hx
  exact ⟨hx', le_antisymm (value_div_le ha' hb hpos ha heq.le hx' hx)
    (value_div_le ha hb hpos ha' heq.ge hx hx')⟩

/-- The magnitude of a quotient is the quotient of the magnitude. -/
theorem value_abs_div (hx : (a / b).isFinite) :
    (a.abs / b).isFinite ∧ Number.value (a.abs / b) = |(a / b).value| := by
  have habs := (isFinite_abs a).trans ha
  rcases le_or_gt 0 a.value with hnonneg | hneg
  · rw [abs_of_nonneg (value_div_nonneg ha hb hpos hx hnonneg)]
    exact value_div_congr ha hb hpos habs (by rw [value_abs, abs_of_nonneg hnonneg]) hx
  · rw [abs_of_nonpos (value_div_nonpos ha hb hpos hx hneg.le), ← value_neg_div]
    exact value_div_congr ((isFinite_neg a).trans ha) hb hpos habs
      (by rw [value_abs, abs_of_neg hneg, value_neg]) ((isFinite_neg_div a b).trans hx)

/-- Below zero it is the other way round. -/
theorem neg_mul_le_div_iff (hx : (a / b).isFinite) (hneg : a.value < 0) (hk : Normal k t)
    (hfull : 2 ^ 52 ≤ k) :
    -((k : ℚ) * 2 ^ t) ≤ (a / b).value ↔ -((k : ℚ) * 2 ^ t) - 2 ^ (t - 1) < a.value / b.value := by
  have hiff := div_le_mul_iff ((isFinite_neg a).trans ha) (by rw [value_neg]; linarith) hb hpos
    ((isFinite_neg_div a b).trans hx) hk hfull
  rwa [middle_eq, value_neg_div, value_neg, neg_div, neg_le, neg_lt, neg_add'] at hiff

end Signed

/-! ### Quotients by whole numbers -/

section Multiples

variable {d u : Number} {i w : Nat}
variable (hd : d.isFinite) (hu : Whole u w) (hw : 0 < w) (hx : (d / u).isFinite) (hi : 0 < i)
  (hroom : i * w < 2 ^ 53)

include hd hu hw hx hi hroom

/-- A multiple of the divisor that can be written is divided exactly, so what reaches it has a quotient that
does, -/
theorem le_abs_value_div (h : (i * w : Nat) ≤ |d.value|) : (i : ℚ) ≤ |(d / u).value| := by
  have hpos := hu.value_pos hw
  obtain ⟨c, hc⟩ := exists_whole hroom
  have hquot := hc.div hu hi hw ((Nat.le_mul_of_pos_right i hw).trans_lt hroom)
  obtain ⟨hfin, hvalue⟩ := value_abs_div hd hu.isFinite hpos hx
  rw [← hvalue, ← hquot.value]
  refine value_div_le hc.isFinite hu.isFinite hpos ((isFinite_abs d).trans hd) ?_ hquot.isFinite hfin
  rwa [hc.value, value_abs]

/-- and what does not exceed it has one that does not. -/
theorem abs_value_div_le_of_whole (h : |d.value| ≤ (i * w : Nat)) : |(d / u).value| ≤ i := by
  have hpos := hu.value_pos hw
  obtain ⟨c, hc⟩ := exists_whole hroom
  have hquot := hc.div hu hi hw ((Nat.le_mul_of_pos_right i hw).trans_lt hroom)
  obtain ⟨hfin, hvalue⟩ := value_abs_div hd hu.isFinite hpos hx
  rw [← hvalue, ← hquot.value]
  refine value_div_le ((isFinite_abs d).trans hd) hu.isFinite hpos hc.isFinite ?_ hfin hquot.isFinite
  rwa [hc.value, value_abs]

end Multiples

end Number

end RadioOccupancy
