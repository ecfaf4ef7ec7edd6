import RadioOccupancy.Proofs.Keys
import RadioOccupancy.Proofs.Quotient

/-!
Which thresholds share a step.

    quotient       n - 1/2             n + 1/2
            ------(---|---------------(---|------
    step    n - 1             n             n + 1

A step is the nearest whole number of a quotient that has been rounded itself. So it begins a little before
its half: in the middle between this and the number below it (`cut_lt_iff`). Numbers lie further apart from
each power of two away from zero, so the step of zero and those of the negative powers of two are wider than
one, and the others are not (`between_cuts`). These are the steps that thresholds share if they are a full
step apart (`Threshold.steps_apart`).
-/

namespace RadioOccupancy

namespace Number
open Float.Model Float.Model.UnpackedFloat

variable {a b x : Number} {m k : Nat} {t : Int}

/-! ### Rounding to whole numbers -/

theorem floor_add_half (z : Int) : ⌊(z : ℚ) + 1 / 2⌋ = z := by
  rw [Int.floor_eq_iff]
  constructor <;> linarith

theorem floor_div_add_half (z : Int) {unit : Nat} (h : 0 < unit) :
    ⌊(z : ℚ) / unit + 1 / 2⌋ = (2 * z + unit) / (2 * unit) := by
  have hfrac : (z : ℚ) / unit + 1 / 2 = ((2 * z + unit : Int) : ℚ) / (2 * unit : Nat) := by
    push_cast
    field_simp
  rw [hfrac, Rat.floor_intCast_div_natCast]
  push_cast
  rfl

theorem abs_floor_lt {v : ℚ} (h : |v| < 2 ^ 52) : |⌊v + 1 / 2⌋| < 2 ^ 53 := by
  have hfloor := Int.floor_le (v + 1 / 2)
  have hfloor' := Int.lt_floor_add_one (v + 1 / 2)
  rw [abs_lt] at h
  have hcast : |((⌊v + 1 / 2⌋ : Int) : ℚ)| < 2 ^ 53 := abs_lt.2 ⟨by linarith, by linarith⟩
  exact_mod_cast hcast

/-- A number with a fractional part is not large. -/
theorem abs_value_lt {s : Sign} {q : Int} {hm : 0 < m} (hu : x.unpack = .finite s m q hm) (hq : q < 0) :
    |x.value| < 2 ^ 52 := by
  have hlt : (m : ℚ) < 2 ^ 53 := by exact_mod_cast (normal_of_unpack hu).lt
  have hhalf : (2 : ℚ) ^ q ≤ 2 ^ (-1 : Int) := zpow_le_zpow_right₀ one_le_two (by omega)
  calc |x.value| = m * 2 ^ q := abs_value hu
    _ ≤ m * 2 ^ (-1 : Int) := by gcongr
    _ < 2 ^ 53 * 2 ^ (-1 : Int) := by gcongr
    _ = 2 ^ 52 := by norm_num

/-- The nearest whole number of a finite one is computed exactly, and a half is rounded up. -/
theorem value_roundHalfUp (h : x.isFinite) :
    x.roundHalfUp.isFinite ∧ x.roundHalfUp.value = ⌊x.value + 1 / 2⌋ := by
  obtain ⟨s, hu⟩ | ⟨s, m, q, hm, hu⟩ := unpack_of_isFinite h
  · rw [roundHalfUp, hu]
    dsimp only
    rw [value_of_zero hu, ← Int.cast_zero, floor_add_half]
    exact ⟨isFinite_zero, value_zero.trans Int.cast_zero.symm⟩
  · have hvalue : x.value = s.apply m * 2 ^ q := by rw [value, hu]
    rw [roundHalfUp, hu]
    dsimp only
    split
    · next hq =>
      refine ⟨h, ?_⟩
      have hwhole : x.value = (s.apply m * 2 ^ q.toNat : Int) := by
        rw [hvalue, Int.cast_mul, Int.cast_pow, Int.cast_ofNat, ← zpow_natCast, Int.toNat_of_nonneg hq]
      rw [hwhole, floor_add_half]
    · next hq =>
      have hunit : (2 : ℚ) ^ q = ((twoTo (-q).toNat : Nat) : ℚ)⁻¹ := by
        rw [twoTo_eq, Nat.cast_pow, Nat.cast_ofNat, ← zpow_natCast, Int.toNat_of_nonneg (by omega), zpow_neg,
          inv_inv]
      have hfloor : ⌊x.value + 1 / 2⌋ =
          (2 * s.apply m + (twoTo (-q).toNat : Nat)) / (2 * (twoTo (-q).toNat : Nat)) := by
        rw [hvalue, hunit, ← div_eq_mul_inv, floor_div_add_half _ (by rw [twoTo_eq]; positivity)]
      rw [← hfloor]
      exact value_ofInt (abs_floor_lt (abs_value_lt hu (not_le.1 hq)))

/-! ### Where the steps begin -/

/-- From where on quotients are rounded to `n - 1 / 2` at least: the middle between this and the number below
it. -/
def cut : Int → ℚ
  | .ofNat 0 => -1 / 2 - 2 ^ (-54 : Int)
  | .ofNat 1 => 1 / 2 - 2 ^ (-55 : Int)
  | .ofNat (m + 2) => (m + 1 : Nat) + 1 / 2 - 2 ^ ((m + 1).log2 - 53 : Int)
  | .negSucc m => -((m + 1 : Nat) + 1 / 2) - 2 ^ ((m + 1).log2 - 53 : Int)

theorem cut_zero : cut 0 = -1 / 2 - 2 ^ (-54 : Int) :=
  rfl

theorem cut_one : cut 1 = 1 / 2 - 2 ^ (-55 : Int) :=
  rfl

theorem cut_add_two (m : Nat) : cut (m + 2 : Nat) = (m + 1 : Nat) + 1 / 2 - 2 ^ ((m + 1).log2 - 53 : Int) :=
  rfl

theorem cut_negSucc (m : Nat) : cut (.negSucc m) = -((m + 1 : Nat) + 1 / 2) - 2 ^ ((m + 1).log2 - 53 : Int) :=
  rfl

theorem eq_one_or_add_two {n : Int} (h : 1 ≤ n) : n = 1 ∨ ∃ m : Nat, n = (m + 2 : Nat) := by
  obtain ⟨j, rfl⟩ := Int.eq_ofNat_of_zero_le (zero_le_one.trans h)
  rcases Nat.lt_or_ge j 2 with hj | hj
  · exact .inl (by omega)
  · exact .inr ⟨j - 2, by omega⟩

theorem eq_zero_or_negSucc {n : Int} (h : n ≤ 0) : n = 0 ∨ ∃ m : Nat, n = .negSucc m := by
  cases n with
  | ofNat j => exact .inl (le_antisymm h (Int.natCast_nonneg j))
  | negSucc m => exact .inr ⟨m, rfl⟩

theorem cut_pos {n : Int} (h : 1 ≤ n) : 0 < cut n := by
  obtain rfl | ⟨m, rfl⟩ := eq_one_or_add_two h
  · rw [cut_one]
    norm_num
  · have hle : ((2 ^ (m + 1).log2 : Nat) : ℚ) ≤ (m + 1 : Nat) := by
      exact_mod_cast Nat.log2_self_le (Nat.succ_ne_zero m)
    have hsmall : (2 : ℚ) ^ ((m + 1).log2 - 53 : Int) ≤ 2 ^ ((m + 1).log2 : Int) :=
      zpow_le_zpow_right₀ one_le_two (by omega)
    rw [zpow_natCast] at hsmall
    rw [cut_add_two]
    push_cast at hle ⊢
    linarith

theorem cut_neg {n : Int} (h : n ≤ 0) : cut n < 0 := by
  obtain rfl | ⟨m, rfl⟩ := eq_zero_or_negSucc h
  · rw [cut_zero]
    norm_num
  · have : (0 : ℚ) < 2 ^ ((m + 1).log2 - 53 : Int) := by positivity
    rw [cut_negSucc]
    push_cast
    linarith

/-- A half behind a whole number can be written, with as many bits before the point as this has. -/
theorem exists_half (hm : 0 < m) (h : m < 2 ^ 52) :
    ∃ k : Nat, 2 ^ 52 < k ∧ k < 2 ^ 53 ∧ (k : ℚ) * 2 ^ (m.log2 - 52 : Int) = m + 1 / 2 := by
  have hlog : m.log2 < 52 := (Nat.log2_lt hm.ne').2 h
  have hle := Nat.log2_self_le hm.ne'
  have hlt := Nat.lt_log2_self (n := m)
  have hpos : 0 < 2 ^ (51 - m.log2) := by positivity
  refine ⟨(2 * m + 1) * 2 ^ (51 - m.log2), ?_, ?_, ?_⟩
  · calc 2 ^ 52 = 2 * 2 ^ m.log2 * 2 ^ (51 - m.log2) := by rw [← pow_succ', ← pow_add]; congr 1; omega
      _ < (2 * m + 1) * 2 ^ (51 - m.log2) := (Nat.mul_lt_mul_right hpos).2 (by omega)
  · calc (2 * m + 1) * 2 ^ (51 - m.log2) < 2 * 2 ^ (m.log2 + 1) * 2 ^ (51 - m.log2) :=
          (Nat.mul_lt_mul_right hpos).2 (by omega)
      _ = 2 ^ 53 := by rw [← pow_succ', ← pow_add]; congr 1; omega
  · have hpow : (2 : ℚ) ^ (51 - m.log2) * 2 ^ (m.log2 - 52 : Int) = 1 / 2 := by
      rw [← zpow_natCast, ← zpow_add₀ two_ne_zero, Nat.cast_sub (by omega)]
      norm_num
    push_cast
    rw [mul_assoc, hpow]
    ring

theorem normal_half (h : 2 ^ 52 ≤ k) (h' : k < 2 ^ 53) (m : Nat) : Normal k (m.log2 - 52 : Int) :=
  ⟨h', by omega, Or.inl h⟩

section Cuts

variable (ha : a.isFinite) (hb : b.isFinite) (hpos : 0 < b.value) (hx : (a / b).isFinite)

include ha hb hpos hx

theorem cut_lt_iff_of_pos (hpos' : 0 < a.value) {n : Int} (hn : 1 ≤ n) (hn' : n ≤ 2 ^ 52) :
    (n : ℚ) - 1 / 2 ≤ (a / b).value ↔ cut n < a.value / b.value := by
  obtain rfl | ⟨m, rfl⟩ := eq_one_or_add_two hn
  · have hiff := succ_mul_le_div_iff ha hpos' hb hpos hx (k := 2 ^ 53 - 1) (t := -54)
      ⟨by norm_num, by norm_num, Or.inl (by norm_num)⟩ (by norm_num)
    rw [middle_eq_sub] at hiff
    rw [cut_one]
    norm_num at hiff ⊢
    exact hiff
  · obtain ⟨k, hk, hk', hhalf⟩ := exists_half (m := m + 1) (by omega) (by omega)
    obtain ⟨k, rfl⟩ := Nat.exists_eq_add_one.2 (Nat.zero_lt_of_lt hk)
    have hiff := succ_mul_le_div_iff ha hpos' hb hpos hx (normal_half (by omega) (by omega) (m + 1))
      (k := k) (by omega)
    rw [middle_eq_sub, hhalf, sub_sub _ (52 : Int) 1] at hiff
    rw [cut_add_two]
    have hshift : (((m + 2 : Nat) : Int) : ℚ) - 1 / 2 = (m + 1 : Nat) + 1 / 2 := by
      push_cast
      ring
    rw [hshift]
    exact hiff

theorem cut_lt_iff_of_neg (hneg : a.value < 0) {n : Int} (hn : n ≤ 0) (hn' : -2 ^ 52 < n) :
    (n : ℚ) - 1 / 2 ≤ (a / b).value ↔ cut n < a.value / b.value := by
  obtain rfl | ⟨m, rfl⟩ := eq_zero_or_negSucc hn
  · have hiff := neg_mul_le_div_iff ha hb hpos hx hneg (k := 2 ^ 52) (t := -53)
      ⟨by norm_num, by norm_num, Or.inl le_rfl⟩ le_rfl
    have hhalf : -((2 ^ 52 : Nat) * 2 ^ (-53 : Int) : ℚ) = -1 / 2 := by norm_num
    rw [hhalf] at hiff
    rw [cut_zero, Int.cast_zero, zero_sub, ← neg_div]
    exact hiff
  · obtain ⟨k, hk, hk', hhalf⟩ := exists_half (m := m + 1) (by omega) (by omega)
    have hiff := neg_mul_le_div_iff ha hb hpos hx hneg (normal_half hk.le hk' (m + 1)) hk.le
    rw [hhalf, sub_sub _ (52 : Int) 1] at hiff
    have hshift : ((Int.negSucc m : Int) : ℚ) - 1 / 2 = -((m + 1 : Nat) + 1 / 2) := by
      rw [Int.cast_negSucc]
      push_cast
      ring
    rw [cut_negSucc, hshift]
    exact hiff

/-- The cuts are where the steps begin. -/
theorem cut_lt_iff {n : Int} (hn : |n| < 2 ^ 52) :
    (n : ℚ) - 1 / 2 ≤ (a / b).value ↔ cut n < a.value / b.value := by
  rw [abs_lt] at hn
  rcases le_or_gt n 0 with hnonpos | hpos'
  · have hcut := cut_neg hnonpos
    have hcast : (n : ℚ) ≤ 0 := by exact_mod_cast hnonpos
    rcases lt_or_ge a.value 0 with hneg | hnonneg
    · exact cut_lt_iff_of_neg ha hb hpos hx hneg hnonpos hn.1
    · have hquot := value_div_nonneg ha hb hpos hx hnonneg
      exact iff_of_true (by linarith) (hcut.trans_le (div_nonneg hnonneg hpos.le))
  · have hcut := cut_pos hpos'
    have hcast : (1 : ℚ) ≤ n := by exact_mod_cast hpos'
    rcases lt_or_ge 0 a.value with hpos' | hnonpos
    · exact cut_lt_iff_of_pos ha hb hpos hx hpos' ‹_› hn.2.le
    · have hquot := value_div_nonpos ha hb hpos hx hnonpos
      exact iff_of_false (by linarith) fun hlt =>
        (hcut.trans hlt).not_ge (div_nonpos_of_nonpos_of_nonneg hnonpos hpos.le)

end Cuts

/-! ### Steps that are wider than one -/

theorem log2_le_log2 {i j : Nat} (h : i ≤ j) (hi : 0 < i) : i.log2 ≤ j.log2 :=
  (Nat.le_log2 (by omega)).2 ((Nat.log2_self_le hi.ne').trans h)

/-- The logarithm goes up by one at a power of two, and nowhere else. -/
theorem eq_pow_of_log2_lt (h : (m + 1).log2 < (m + 2).log2) :
    m + 2 = 2 ^ (m + 2).log2 ∧ (m + 2).log2 = (m + 1).log2 + 1 := by
  have hlow := Nat.log2_self_le (n := m + 2) (by omega)
  have hhigh := Nat.lt_log2_self (n := m + 1)
  have hpow : 2 ^ ((m + 1).log2 + 1) ≤ 2 ^ (m + 2).log2 := Nat.pow_le_pow_right two_pos h
  have heq : m + 2 = 2 ^ (m + 2).log2 := by omega
  refine ⟨heq, le_antisymm ?_ h⟩
  rw [← Nat.pow_le_pow_iff_right Nat.one_lt_two, ← heq]
  omega

variable {v w : ℚ}

/-- Above zero the steps are no wider than one. -/
theorem cut_succ_le {n : Int} (h : 1 ≤ n) : cut (n + 1) ≤ cut n + 1 := by
  obtain rfl | ⟨m, rfl⟩ := eq_one_or_add_two h
  · have hnext : cut (1 + 1) = (1 : Nat) + 1 / 2 - 2 ^ (-53 : Int) := cut_add_two 0
    rw [hnext, cut_one]
    norm_num
  · have hnext : cut ((m + 2 : Nat) + 1) = (m + 1 + 1 : Nat) + 1 / 2 - 2 ^ ((m + 1 + 1).log2 - 53 : Int) :=
      cut_add_two (m + 1)
    have hpow : (2 : ℚ) ^ ((m + 1).log2 - 53 : Int) ≤ 2 ^ ((m + 1 + 1).log2 - 53 : Int) :=
      zpow_le_zpow_right₀ one_le_two (by have := log2_le_log2 (Nat.le_add_right (m + 1) 1) m.succ_pos; omega)
    rw [hnext, cut_add_two]
    push_cast
    linarith

/-- Below zero only those are that begin at a power of two. -/
theorem cut_succ_of_neg (m : Nat) : cut (.negSucc m + 1) ≤ cut (.negSucc m) + 1 ∨
    ∃ k : Nat, m + 1 = 2 ^ k ∧ cut (.negSucc m + 1) = cut (.negSucc m) + 1 + 2 ^ (k - 54 : Int) := by
  have hpow (k : Nat) : (2 : ℚ) ^ (k - 53 : Int) = 2 * 2 ^ (k - 54 : Int) := by
    rw [← zpow_one_add₀ two_ne_zero]
    congr 1
    ring
  cases m with
  | zero =>
    refine .inr ⟨0, rfl, ?_⟩
    have hnext : cut (.negSucc 0 + 1) = cut 0 := rfl
    have hlog : (0 + 1).log2 = 0 := by decide
    rw [hnext, cut_zero, cut_negSucc, hlog]
    norm_num
  | succ m =>
    have hnext : cut (.negSucc (m + 1) + 1) = cut (.negSucc m) := rfl
    rw [hnext, cut_negSucc, cut_negSucc]
    rcases (log2_le_log2 (Nat.le_add_right (m + 1) 1) m.succ_pos).eq_or_lt with heq | hlt
    · left
      rw [← heq]
      push_cast
      linarith
    · right
      obtain ⟨htwo, hlog⟩ := eq_pow_of_log2_lt hlt
      have hbefore : ((m + 1).log2 - 53 : Int) = ((m + 2).log2 : Nat) - 54 := by
        rw [hlog]
        push_cast
        ring
      refine ⟨_, htwo, ?_⟩
      rw [hbefore, hpow]
      push_cast
      ring

/-- Two places that are one apart or more lie between the same cuts only at zero and at the negative powers of
two, and if they are hardly more than one apart. -/
theorem between_cuts {n : Int} (h : 1 ≤ v - w) (hw : cut n < w) (hv : v ≤ cut (n + 1)) :
    (n = 0 ∨ ∃ k : Nat, n = -2 ^ k) ∧ v - w < 1 + max 1 |(n : ℚ)| * 2 ^ (-54 : Int) := by
  have hwide : v - w < cut (n + 1) - cut n := by linarith
  rcases le_or_gt n 0 with hnonpos | hpos
  · obtain rfl | ⟨m, rfl⟩ := eq_zero_or_negSucc hnonpos
    · rw [zero_add, cut_one, cut_zero] at hwide
      refine ⟨.inl rfl, ?_⟩
      norm_num at hwide ⊢
      linarith
    · obtain hle | ⟨k, hk, hcut⟩ := cut_succ_of_neg m
      · linarith
      · have habs : |((Int.negSucc m : Int) : ℚ)| = 2 ^ k := by
          rw [Int.cast_negSucc, abs_neg, Nat.abs_cast, hk]
          push_cast
          rfl
        have hscale : (2 : ℚ) ^ (k - 54 : Int) = 2 ^ k * 2 ^ (-54 : Int) := by
          rw [sub_eq_add_neg, zpow_add₀ two_ne_zero, zpow_natCast]
        refine ⟨.inr ⟨k, ?_⟩, ?_⟩
        · rw [Int.negSucc_eq]
          exact congrArg Neg.neg (by exact_mod_cast hk)
        · rw [habs, max_eq_right (one_le_pow₀ one_le_two), ← hscale]
          linarith
  · have := cut_succ_le hpos
    linarith

/-! ### Which numbers are steps -/

theorem isInteger_of_value {z : Int} (h : x.isFinite) (hz : x.value = z) : x.isInteger := by
  obtain ⟨s, hu⟩ | ⟨s, m, q, hm, hu⟩ := unpack_of_isFinite h
  · rw [isInteger, hu]
  · rw [isInteger, hu]
    refine isWhole_of_value (n := z.natAbs) ?_
    rw [← abs_value hu, hz, Nat.cast_natAbs, Int.cast_abs]

theorem roundHalfUp_of_infinity {s : Sign} (hu : x.unpack = .infinity s) : x.roundHalfUp = x := by
  rw [roundHalfUp, hu]

theorem isInteger_roundHalfUp_iff (h : x.isNaN = false) : x.roundHalfUp.isInteger ↔ x.isFinite := by
  by_cases hx : x.isFinite
  · obtain ⟨hround, hvalue⟩ := value_roundHalfUp hx
    exact iff_of_true (isInteger_of_value hround hvalue) hx
  · have hround : x.roundHalfUp = x := by
      rcases finite_or_infinite h with hfin | hinf | hinf
      · exact absurd hfin hx
      · exact roundHalfUp_of_infinity hinf
      · exact roundHalfUp_of_infinity hinf
    rw [hround]
    exact iff_of_false (fun hint => hx (isFinite_of_isInteger hint)) hx

/-- Numbers that are not undefined name the same key if they are ranked alike. -/
theorem same_iff_rank (ha : a.isNaN = false) (hb : b.isNaN = false) : a.same b ↔ a.rank = b.rank := by
  rw [same_eq_beq ha, beq_iff_compare, compare_rank ha hb, Option.some.injEq, compare_eq_iff_eq]

theorem le_infinity (hb : b.unpack = .infinity .positive) (ha : a.isNaN = false) : a ≤ b := by
  have hnan : b.isNaN = false := by
    rw [isNaN_eq, hb]
    rfl
  refine le_iff_rank.2 ⟨ha, hnan, ?_⟩
  have hrank : b.rank = ⊤ := by
    rw [rank, hb]
    rfl
  rw [hrank]
  exact le_top

theorem infinity_le (ha : a.unpack = .infinity .negative) (hb : b.isNaN = false) : a ≤ b := by
  have hnan : a.isNaN = false := by
    rw [isNaN_eq, ha]
    rfl
  refine le_iff_rank.2 ⟨hnan, hb, ?_⟩
  have hrank : a.rank = ⊥ := by rw [rank, ha]
  rw [hrank]
  exact bot_le

theorem lt_iff_not_same (h : b ≤ a) : b < a ↔ ¬a.same b := by
  obtain ⟨hb, ha, hle⟩ := le_iff_rank.1 h
  rw [lt_iff_rank, same_iff_rank ha hb, hle.lt_iff_ne]
  exact ⟨fun hlt heq => hlt.2.2 heq.symm, fun hne => ⟨hb, ha, fun heq => hne heq.symm⟩⟩

end Number

namespace Threshold
open Number

variable {θ η resolution s u : Number}

theorem step_eq (hθ : θ.isFinite) (hres : resolution.isFinite) (hpos : 0 < resolution) :
    step θ resolution = .ok (θ / resolution).roundHalfUp := by
  rw [step, hθ, hres, decide_eq_false (not_le_of_lt hpos)]
  rfl

section Steps

variable (hθ : θ.isFinite) (hη : η.isFinite) (hres : resolution.isFinite) (hpos : 0 < resolution.value)

include hθ hη hres hpos

/-- A threshold that is not below another has a step that is not below that of the other. -/
theorem step_le_step (hle : η.value ≤ θ.value) :
    (η / resolution).roundHalfUp ≤ (θ / resolution).roundHalfUp := by
  have hnan := roundHalfUp_defined (div_defined hθ hres hpos.ne')
  have hnan' := roundHalfUp_defined (div_defined hη hres hpos.ne')
  have hquot : η.value / resolution.value ≤ θ.value / resolution.value :=
    div_le_div_of_nonneg_right hle hpos.le
  rcases div_cases hθ hres hpos with ⟨hlt, hx⟩ | ⟨-, hinf⟩ | ⟨hlow, -⟩
  · rcases div_cases hη hres hpos with ⟨-, hy⟩ | ⟨hhigh, -⟩ | ⟨-, hinf⟩
    · obtain ⟨hfin, hvalue⟩ := value_roundHalfUp hx
      obtain ⟨hfin', hvalue'⟩ := value_roundHalfUp hy
      have hround := value_div_le hη hres hpos hθ hle hy hx
      rw [Number.le_iff hfin' hfin, hvalue, hvalue', Int.cast_le]
      exact Int.floor_le_floor (by linarith)
    · exact absurd ((hhigh.trans hquot).trans (le_abs_self _)) hlt.not_ge
    · rw [roundHalfUp_of_infinity hinf] at hnan' ⊢
      exact infinity_le hinf hnan
  · rw [roundHalfUp_of_infinity hinf] at hnan ⊢
    exact le_infinity hinf hnan'
  · rcases div_cases hη hres hpos with ⟨hlt, -⟩ | ⟨hhigh, -⟩ | ⟨-, hinf⟩
    · have habs := (le_neg.2 (hquot.trans hlow)).trans (neg_le_abs _)
      exact absurd hlt habs.not_gt
    · have hbound : (0 : ℚ) < 2 ^ 1024 - 2 ^ 970 := sub_pos.2 (pow_lt_pow_right₀ one_lt_two (by norm_num))
      exact absurd (hhigh.trans (hquot.trans hlow)) (neg_lt_self hbound).not_ge
    · rw [roundHalfUp_of_infinity hinf] at hnan' ⊢
      exact infinity_le hinf hnan

omit hη in
/-- A threshold within so many steps of zero has a whole step, which is counted by the cuts. -/
theorem exists_step (hsmall : |θ.value| ≤ 2 ^ 51 * resolution.value) :
    ∃ n : Int, |n| ≤ 2 ^ 51 ∧ (θ / resolution).roundHalfUp.isFinite ∧ (θ / resolution).roundHalfUp.value = n ∧
      ∀ i : Int, |i| < 2 ^ 52 → (i ≤ n ↔ cut i < θ.value / resolution.value) := by
  have hx := isFinite_div_of_abs_le hθ hres hpos hsmall
  obtain ⟨hfin, hvalue⟩ := value_roundHalfUp hx
  have hround := abs_value_div_le (f := (51 : Nat)) hθ hres hpos hx (by norm_num) (by rwa [zpow_natCast])
  rw [zpow_natCast] at hround
  refine ⟨_, ?_, hfin, hvalue, fun i hi => ?_⟩
  · rw [abs_le] at hround ⊢
    have hlow : ((-2 ^ 51 : Int) : ℚ) ≤ (θ / resolution).value + 1 / 2 := by
      push_cast
      linarith
    have hhigh : (θ / resolution).value + 1 / 2 < ((2 ^ 51 + 1 : Int) : ℚ) := by
      push_cast
      linarith
    exact ⟨Int.le_floor.2 hlow, Int.lt_add_one_iff.1 (Int.floor_lt.2 hhigh)⟩
  · rw [← cut_lt_iff hθ hres hpos hx hi, Int.le_floor, sub_le_iff_le_add]

/-- Thresholds that are a full step apart share a step just if both are between the cuts of zero, or of a
negative power of two. -/
theorem same_step_iff (hle : resolution.value ≤ θ.value - η.value)
    (hsmall : |θ.value| ≤ 2 ^ 51 * resolution.value) (hsmall' : |η.value| ≤ 2 ^ 51 * resolution.value) :
    ((θ / resolution).roundHalfUp.same (η / resolution).roundHalfUp ↔ ∃ n : Int, |n| ≤ 2 ^ 51 ∧
      (n = 0 ∨ ∃ k : Nat, n = -2 ^ k) ∧ cut n < η.value / resolution.value ∧
      θ.value / resolution.value ≤ cut (n + 1)) ∧
    ((θ / resolution).roundHalfUp.same (η / resolution).roundHalfUp → θ.value - η.value <
      (1 + max 1 |(θ / resolution).roundHalfUp.value| * 2 ^ (-54 : Int)) * resolution.value) := by
  obtain ⟨n, hn, hfin, hvalue, hcuts⟩ := exists_step hθ hres hpos hsmall
  obtain ⟨j, hj, hfin', hvalue', hcuts'⟩ := exists_step hη hres hpos hsmall'
  have hjn : j ≤ n := by
    have hstep := step_le_step hθ hη hres hpos (by linarith)
    rw [Number.le_iff hfin' hfin, hvalue, hvalue'] at hstep
    exact_mod_cast hstep
  have hapart : 1 ≤ θ.value / resolution.value - η.value / resolution.value := by
    rwa [← sub_div, one_le_div hpos]
  have hnext (i : Int) (hi : |i| ≤ 2 ^ 51) : |i| < 2 ^ 52 ∧ |i + 1| < 2 ^ 52 := by
    rw [abs_le] at hi
    rw [abs_lt, abs_lt]
    omega
  have hsame : (θ / resolution).roundHalfUp.same (η / resolution).roundHalfUp ↔ n = j := by
    rw [same_iff_value hfin hfin', hvalue, hvalue', Int.cast_inj]
  have hbetween (heq : n = j) :
      cut n < η.value / resolution.value ∧ θ.value / resolution.value ≤ cut (n + 1) := by
    subst heq
    refine ⟨(hcuts' n (hnext n hn).1).1 le_rfl, not_lt.1 fun hlt => ?_⟩
    have := (hcuts (n + 1) (hnext n hn).2).2 hlt
    omega
  rw [hsame, hvalue]
  refine ⟨⟨fun heq => ?_, ?_⟩, fun heq => ?_⟩
  · obtain ⟨hlow, hhigh⟩ := hbetween heq
    exact ⟨n, hn, (between_cuts hapart hlow hhigh).1, hlow, hhigh⟩
  · rintro ⟨i, hi, -, hlow, hhigh⟩
    have hij := (hcuts' i (hnext i hi).1).2 hlow
    have hni : ¬i + 1 ≤ n := fun hle => ((hcuts (i + 1) (hnext i hi).2).1 hle).not_ge hhigh
    omega
  · obtain ⟨hlow, hhigh⟩ := hbetween heq
    rw [← div_lt_iff₀ hpos, sub_div]
    exact (between_cuts hapart hlow hhigh).2

end Steps

/-- Energy that is detected at one threshold is found at another just if they share a step. -/
theorem get_detected (hs : step θ resolution = .ok s) (hu : step η resolution = .ok u) {t : BusyTable}
    (ht : t.resolution = resolution) (band : Band) (now duration : Number) :
    ∃ found t', t.detect band θ now duration = .ok (found, t') ∧
      t'.get band η = if s.same u then .ok (some found.entry) else t.get band η := by
  subst ht
  have hu' : step η (t.detected band s now duration).resolution = .ok u := by
    rw [BusyTable.resolution_detected, hu]
  have hself : band.sameKey band = true := (Band.sameKey_iff band band).2 ⟨rfl, rfl⟩
  refine ⟨_, _, BusyTable.detect_of_step hs band now duration, ?_⟩
  rw [BusyTable.get_of_step hu', BusyTable.get_of_step hu, ← BusyTable.find?_eq_lookUp,
    ← BusyTable.find?_eq_lookUp, BusyTable.find?_detected, hself, Bool.true_and]
  split <;> rfl

/-- Of two thresholds that are a full step apart, the higher one has the higher step, or they share a step.
Steps are whole numbers as long as the quotient does not leave the finite range. Within `2 ^ 51` steps of
zero, they share a step just if both quotients lie between the cuts of zero, or of a negative power of two,
which are a little more than a step apart. If the steps differ, nothing that is detected at the one threshold
is found at the other. -/
theorem steps_apart (hθ : θ.isFinite) (hη : η.isFinite) (hres : resolution.isFinite) (hpos : 0 < resolution)
    (hle : resolution.value ≤ θ.value - η.value) :
    ∃ s u, step θ resolution = .ok s ∧ step η resolution = .ok u ∧ u ≤ s ∧ (u < s ↔ ¬s.same u) ∧
      (s.isInteger ↔ |θ.value| < (2 ^ 1024 - 2 ^ 970) * resolution.value) ∧
      (u.isInteger ↔ |η.value| < (2 ^ 1024 - 2 ^ 970) * resolution.value) ∧
      (|θ.value| ≤ 2 ^ 51 * resolution.value → |η.value| ≤ 2 ^ 51 * resolution.value →
        (s.same u ↔ ∃ n : Int, |n| ≤ 2 ^ 51 ∧ (n = 0 ∨ ∃ k : Nat, n = -2 ^ k) ∧
          cut n < η.value / resolution.value ∧ θ.value / resolution.value ≤ cut (n + 1)) ∧
        (s.same u → θ.value - η.value < (1 + max 1 |s.value| * 2 ^ (-54 : Int)) * resolution.value)) ∧
      ∀ t : BusyTable, t.resolution = resolution → ∀ band now duration, ∃ found t',
        t.detect band θ now duration = .ok (found, t') ∧
        t'.get band η = if s.same u then .ok (some found.entry) else t.get band η := by
  have hpos' := (Number.lt_iff isFinite_zero hres).1 hpos
  rw [value_zero] at hpos'
  have hs := step_eq hθ hres hpos
  have hu := step_eq hη hres hpos
  have hstep := step_le_step hθ hη hres hpos' (by linarith)
  refine ⟨_, _, hs, hu, hstep, lt_iff_not_same hstep, ?_, ?_, ?_, fun t ht => get_detected hs hu ht⟩
  · rw [isInteger_roundHalfUp_iff (div_defined hθ hres hpos'.ne'), isFinite_div_iff_abs hθ hres hpos']
  · rw [isInteger_roundHalfUp_iff (div_defined hη hres hpos'.ne'), isFinite_div_iff_abs hη hres hpos']
  · exact same_step_iff hθ hη hres hpos' hle

/-- Thresholds that are a decibel apart have steps of their own. -/
theorem steps_apart_decibel :
    Float.isFinite (-82) ∧ Float.isFinite (-83) ∧ (1 : Number).isFinite ∧ (0 : Number) < 1 ∧
    Number.value 1 ≤ Number.value (-82) - Number.value (-83) ∧
    step (-82) 1 = .ok (-82) ∧ step (-83) 1 = .ok (-83) ∧
    ∀ t : BusyTable, t.resolution = 1 → ∀ band now duration, ∃ found t',
      t.detect band (-82) now duration = .ok (found, t') ∧ t'.get band (-83) = t.get band (-83) := by
  have hhigh : Float.isFinite (-82) := by decide +kernel
  have hlow : Float.isFinite (-83) := by decide +kernel
  have hres : (1 : Number).isFinite := by decide +kernel
  have hpos : (0 : Number) < 1 := by decide +kernel
  have hle : Number.value 1 ≤ Number.value (-82) - Number.value (-83) := by decide +kernel
  obtain ⟨s, u, hs, hu, -, -, -, -, -, htables⟩ := steps_apart hhigh hlow hres hpos hle
  have hs' : (step (-82) 1).toOption = some (-82) := by decide +kernel
  have hu' : (step (-83) 1).toOption = some (-83) := by decide +kernel
  rw [hs] at hs'
  rw [hu] at hu'
  obtain rfl := Option.some.inj hs'
  obtain rfl := Option.some.inj hu'
  have hne : ¬Number.same (-82) (-83) := by decide +kernel
  refine ⟨hhigh, hlow, hres, hpos, hle, hs, hu, fun t ht band now duration => ?_⟩
  obtain ⟨found, t', hdetect, hget⟩ := htables t ht band now duration
  exact ⟨found, t', hdetect, hget.trans (if_neg hne)⟩

/-- At a resolution of 0.7 dB, -89.25 dBm and -89.95 dBm share the step -128, so what is detected at the one
is found at the other. And at 0.01 dB, 1e308 dBm has no whole step. -/
theorem steps_shared :
    let θ : Number := -89.25
    let η : Number := -89.95
    (θ.isFinite ∧ η.isFinite ∧ (0.7 : Number).isFinite ∧ (0 : Number) < 0.7 ∧
      Number.value 0.7 ≤ θ.value - η.value ∧ step θ 0.7 = .ok (-128) ∧ step η 0.7 = .ok (-128) ∧
      ∃ found t', BusyTable.detect ⟨0.7, []⟩ ⟨0, 63⟩ θ 0 10 = .ok (found, t') ∧
        t'.get ⟨0, 63⟩ η = .ok (some found.entry)) ∧
    (step 1e308 0.01).toOption.map Number.isInteger = some false := by
  intro θ η
  have hθ : θ.isFinite := by decide +kernel
  have hη : η.isFinite := by decide +kernel
  have hres : (0.7 : Number).isFinite := by decide +kernel
  have hpos : (0 : Number) < 0.7 := by decide +kernel
  have hround : (θ / 0.7).roundHalfUp = -128 := by decide +kernel
  have hround' : (η / 0.7).roundHalfUp = -128 := by decide +kernel
  have hs : step θ 0.7 = .ok (-128) := by rw [step_eq hθ hres hpos, hround]
  have hu : step η 0.7 = .ok (-128) := by rw [step_eq hη hres hpos, hround']
  obtain ⟨found, t', hdetect, hget⟩ := get_detected hs hu (t := ⟨0.7, []⟩) rfl ⟨0, 63⟩ 0 10
  have hsame : Number.same (-128) (-128) := by decide +kernel
  exact ⟨⟨hθ, hη, hres, hpos, by decide +kernel, hs, hu, found, t', hdetect, hget.trans (if_pos hsame)⟩,
    by decide +kernel⟩

end Threshold

end RadioOccupancy
