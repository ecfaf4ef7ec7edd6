import Mathlib
import RadioOccupancy.Proofs.Rounding

/-!
Products and quotients are rounded to the nearest number.

        v            8 v
    --+--|---+---------------|--------
      floor  next            the same place between floor and next, eight times as large

An exact result lies between two numbers that can be written, and is rounded to one of them
(`nearest_of_floor`). This determines what it is rounded to: what can be written is kept (`Rounded.exact`),
and to multiply by a power of two is to move the same significands to other exponents (`Rounded.scale`), as
long as they are not at the end of their range. So quotients by the same divisor are to each other as the
dividends are, if that is a power of two.
-/

namespace RadioOccupancy

namespace Number
open Float.Model Float.Model.UnpackedFloat

variable {m n k : Nat} {e f t : Int} {u v : ℚ}

/-! ### The number nearest to a rational -/

/-- The rational is rounded to this significand and exponent: it is rounded past the numbers below, and no
others. -/
structure Nearest (v : ℚ) (m : Nat) (e : Int) : Prop where
  normal : Normal m e
  past : ∀ n f, Normal n f → ((n : ℚ) * 2 ^ f < m * 2 ^ e ↔ RoundsUp n f v)

/-- It is rounded to one of the neighbours that it lies between. -/
theorem nearest_of_floor (hk : Normal k t) (hle : (k : ℚ) * 2 ^ t ≤ v) (hlt : v < (k + 1 : Nat) * 2 ^ t)
    (hm : Normal m e) (hvalue : RoundsUp k t v ∧ (m : ℚ) * 2 ^ e = (k + 1 : Nat) * 2 ^ t ∨
      ¬RoundsUp k t v ∧ (m : ℚ) * 2 ^ e = k * 2 ^ t) : Nearest v m e := by
  refine ⟨hm, fun n f hn => ?_⟩
  have hpos : (0 : ℚ) < 2 ^ f := by positivity
  have hpos' : (0 : ℚ) < 2 ^ t := by positivity
  have hsucc : ((k + 1 : Nat) : ℚ) * 2 ^ t = k * 2 ^ t + 2 ^ t := by push_cast; ring
  have hsucc' : ((n + 1 : Nat) : ℚ) * 2 ^ f = n * 2 ^ f + 2 ^ f := by push_cast; ring
  rcases lt_trichotomy ((n : ℚ) * 2 ^ f) (k * 2 ^ t) with hbelow | heq | habove
  · -- the lower neighbour is past it already, so the middle is behind
    have hgap := succ_mul_le hn hk hbelow
    refine iff_of_true ?_ (Or.inl (by linarith))
    rcases hvalue with ⟨-, hvalue⟩ | ⟨-, hvalue⟩ <;> linarith
  · obtain ⟨rfl, rfl⟩ := eq_of_normal hn hk heq
    rcases hvalue with ⟨hup, hvalue⟩ | ⟨hup, hvalue⟩
    · exact iff_of_true (by linarith) hup
    · exact iff_of_false (by linarith) hup
  · -- it is not before the upper neighbour
    have hgap := succ_mul_le hk hn habove
    refine iff_of_false ?_ (not_roundsUp_of_le (by linarith))
    rcases hvalue with ⟨-, hvalue⟩ | ⟨-, hvalue⟩ <;> linarith

namespace Nearest

/-- What is not above an exact result is not above what this is rounded to. -/
theorem le (h : Nearest v m e) (hn : Normal n f) (hle : (n : ℚ) * 2 ^ f ≤ v) :
    (n : ℚ) * 2 ^ f ≤ m * 2 ^ e := by
  by_contra! hlt
  have hgap := succ_mul_le h.normal hn hlt
  have hpos : (0 : ℚ) < 2 ^ e := by positivity
  have hup : RoundsUp m e v := by
    refine Or.inl ?_
    have hsucc : ((m + 1 : Nat) : ℚ) * 2 ^ e = m * 2 ^ e + 2 ^ e := by push_cast; ring
    linarith
  exact lt_irrefl _ ((h.past m e h.normal).2 hup)

theorem ge (h : Nearest v m e) (hn : Normal n f) (hle : v ≤ n * 2 ^ f) : (m : ℚ) * 2 ^ e ≤ n * 2 ^ f := by
  by_contra! hlt
  exact not_roundsUp_of_le hle ((h.past n f hn).1 hlt)

/-- A number that can be written is kept. -/
theorem eq (h : Nearest v m e) (hn : Normal n f) (heq : v = n * 2 ^ f) : (m : ℚ) * 2 ^ e = n * 2 ^ f :=
  le_antisymm (h.ge hn heq.le) (h.le hn heq.ge)

theorem normal_pow (hf : -1022 ≤ f) : Normal (2 ^ 52) (f - 52) :=
  ⟨by norm_num, by omega, Or.inl le_rfl⟩

theorem value_pow (f : Int) : ((2 ^ 52 : Nat) : ℚ) * 2 ^ (f - 52) = 2 ^ f := by
  rw [zpow_sub₀ two_ne_zero]
  norm_num
  ring

/-- What is not below a power of two fills all bits of its significand. -/
theorem full (h : Nearest v m e) (hf : -1021 ≤ f) (hle : (2 : ℚ) ^ f ≤ v) : 2 ^ 52 ≤ m ∧ f - 52 ≤ e := by
  have hlow := h.le (normal_pow (f := f) (by omega)) ((value_pow f).trans_le hle)
  rw [value_pow] at hlow
  have hlt : (m : ℚ) < 2 ^ (53 : Int) := by exact_mod_cast h.normal.lt
  have hexp : f - 52 ≤ e := by
    have hpow : (2 : ℚ) ^ f < 2 ^ (53 + e) := by
      refine hlow.trans_lt ?_
      rw [zpow_add₀ two_ne_zero]
      gcongr
    have := (zpow_lt_zpow_iff_right₀ (one_lt_two (α := ℚ))).1 hpow
    omega
  exact ⟨h.normal.full.resolve_right (by omega), hexp⟩

end Nearest

theorem roundsUp_scale (n : Nat) (f : Int) (v : ℚ) (k : Nat) :
    RoundsUp n (f + k) (2 ^ k * v) ↔ RoundsUp n f v := by
  have hpos : (0 : ℚ) < 2 ^ k := by positivity
  have hpow : (2 : ℚ) ^ (f + k) = 2 ^ k * 2 ^ f := by rw [zpow_add₀ two_ne_zero, zpow_natCast, mul_comm]
  have hdiff : 2 * (2 ^ k * v - n * (2 ^ k * 2 ^ f)) = 2 ^ k * (2 * (v - n * 2 ^ f)) := by ring
  rw [RoundsUp, RoundsUp, hpow, hdiff, mul_lt_mul_iff_right₀ hpos, mul_right_inj' hpos.ne']

/-- What is a power of two times as large is rounded to that many times as much. -/
theorem Nearest.scale (h : Nearest v m e) {k : Nat} (h' : Nearest (2 ^ k * v) n f)
    (hlow : (2 : ℚ) ^ (-1000 : Int) ≤ v) : (n : ℚ) * 2 ^ f = 2 ^ k * (m * 2 ^ e) := by
  obtain ⟨hm, he⟩ := h.full (by norm_num) hlow
  have hlow' : (2 : ℚ) ^ (-1000 + k : Int) ≤ 2 ^ k * v := by
    rw [zpow_add₀ two_ne_zero, zpow_natCast, mul_comm]
    gcongr
  obtain ⟨hn, hf⟩ := h'.full (by omega) hlow'
  have hup : Normal m (e + k) := ⟨h.normal.lt, by omega, Or.inl hm⟩
  have hdown : Normal n (f - k) := ⟨h'.normal.lt, by omega, Or.inl hn⟩
  have hmoved : (m : ℚ) * 2 ^ (e + k) = 2 ^ k * (m * 2 ^ e) := by
    rw [zpow_add₀ two_ne_zero, zpow_natCast]
    ring
  have hback : (2 : ℚ) ^ k * (n * 2 ^ (f - k)) = n * 2 ^ f := by
    rw [zpow_sub₀ two_ne_zero, zpow_natCast]
    field_simp
  have hpos : (0 : ℚ) < 2 ^ k := by positivity
  rw [← hmoved]
  refine le_antisymm ?_ ?_
  · by_contra! hlt
    have hrounds := (h'.past m (e + k) hup).1 hlt
    rw [roundsUp_scale] at hrounds
    exact lt_irrefl _ ((h.past m e h.normal).2 hrounds)
  · by_contra! hlt
    have hless : (n : ℚ) * 2 ^ (f - k) < m * 2 ^ e := by
      rwa [hmoved, ← hback, mul_lt_mul_iff_right₀ hpos] at hlt
    have hrounds := (h.past n (f - k) hdown).1 hless
    rw [← roundsUp_scale n (f - k) v k, sub_add_cancel] at hrounds
    exact lt_irrefl _ ((h'.past n f h'.normal).2 hrounds)

/-! ### Rounding finds it -/

theorem StandsFor.bounds {em : ExtendedMantissa} {x : ℚ} (h : StandsFor em x) :
    (em.mantissa : ℚ) ≤ x ∧ x < em.mantissa + 1 := by
  obtain ⟨m, r, s⟩ := em
  rw [StandsFor] at h
  cases r <;> cases s <;> simp only at h ⊢ <;> constructor <;> linarith

/-- A result that was cut off is rounded to the nearest number, if enough of it is left. -/
theorem roundWithAccuracy_nearest {q : Nat} {accuracy : Accuracy} (hfor : t ≤ exponentFor q t)
    (hstands : StandsFor (.ofMantissaAndAccuracy q accuracy) (v / 2 ^ t))
    (hnormal : Normal (q / 2 ^ (exponentFor q t - t).toNat) (exponentFor q t)) :
    ∃ m e, Nearest v m e ∧
      roundWithAccuracy .binary64 .positive q t accuracy = finiteOrZero .positive m e := by
  obtain ⟨hmant, hexp⟩ := shiftToExponent_eq q accuracy hfor
  have hcut : StandsFor (shiftToExponent q t accuracy (exponentFor q t)).1
      (v / 2 ^ t / 2 ^ (exponentFor q t - t).toNat) := hstands.shiftRight _
  have hunits : v / 2 ^ t / 2 ^ (exponentFor q t - t).toNat = v / 2 ^ exponentFor q t := by
    rw [div_div, ← zpow_natCast, ← zpow_add₀ two_ne_zero]
    congr 2
  have hnext := roundedMantissa_eq (shiftToExponent q t accuracy (exponentFor q t)).1
  rw [hunits] at hcut
  have hup := hcut.roundedMantissa_iff
  obtain ⟨hle, hlt⟩ := hcut.bounds
  rw [hmant] at hnext hup hle hlt
  have hround := roundWithAccuracy_eq .positive accuracy rfl hexp
  generalize q / 2 ^ (exponentFor q t - t).toNat = k at hnormal hnext hup hle hlt
  generalize exponentFor q t = t' at hnormal hnext hup hle hlt hround
  obtain ⟨m, e, hm, he, hnormal', hvalue⟩ := shift_rounded hnormal hnext
  dsimp only at hround
  rw [hm, he] at hround
  have hpos : (0 : ℚ) < 2 ^ t' := by positivity
  have hrounds : RoundsUp k t' v ↔ (shiftToExponent q t accuracy t').1.roundedMantissa = k + 1 := by
    have hdiff : v - k * 2 ^ t' = (v / 2 ^ t' - k) * 2 ^ t' := by field_simp
    rw [hup, RoundsUp, hdiff, ← mul_assoc, lt_mul_iff_one_lt_left hpos, eq_comm (a := (2 : ℚ) ^ t'),
      mul_eq_right₀ hpos.ne', eq_comm (a := (1 : ℚ))]
  refine ⟨m, e, nearest_of_floor hnormal ((le_div_iff₀ hpos).1 hle) ?_ hnormal' ?_, hround⟩
  · push_cast
    exact (div_lt_iff₀ hpos).1 hlt
  · rw [hrounds, ← hvalue]
    rcases hnext with hnext | hnext
    · exact Or.inr ⟨by omega, by rw [hnext]⟩
    · exact Or.inl ⟨hnext, by rw [hnext]⟩

theorem unpack_mul (a b : Number) :
    (a * b).unpack = UnpackedFloat.unpack .binary64 (UnpackedFloat.pack .binary64
      (UnpackedFloat.mul .binary64 a.unpack b.unpack)) := rfl

/-- The product of two positive numbers is their exact product, rounded. -/
theorem mul_nearest (hm : 0 < m) (hn : 0 < n) (hme : Normal m e) (hnf : Normal n f) :
    ∃ k t, Nearest (m * 2 ^ e * (n * 2 ^ f)) k t ∧
      UnpackedFloat.mul .binary64 (.finite .positive m e hm) (.finite .positive n f hn) =
        finiteOrZero .positive k t := by
  have hmul : UnpackedFloat.mul .binary64 (.finite .positive m e hm) (.finite .positive n f hn) =
      roundWithAccuracy .binary64 .positive (m * n) (e + f) .exact := rfl
  have hpos : 0 < m * n := Nat.mul_pos hm hn
  have hfor : e + f ≤ exponentFor (m * n) (e + f) := by
    have hbits (hfull : 2 ^ 52 ≤ m * n) : e + f ≤ exponentFor (m * n) (e + f) := by
      have := (Nat.le_log2 hpos.ne').2 hfull
      unfold exponentFor
      omega
    rcases hme.full, hnf.full with ⟨hfull | he, hfull' | hf⟩
    · exact hbits (hfull.trans (Nat.le_mul_of_pos_right m hn))
    · exact hbits (hfull.trans (Nat.le_mul_of_pos_right m hn))
    · exact hbits (hfull'.trans (Nat.le_mul_of_pos_left n hm))
    · unfold exponentFor
      omega
  have hnormal := normal_quotient hpos (e + f)
  rw [quotient, Int.toNat_eq_zero.2 (by omega : e + f - exponentFor (m * n) (e + f) ≤ 0), pow_zero,
    mul_one] at hnormal
  rw [hmul]
  refine roundWithAccuracy_nearest hfor ?_ hnormal
  change _ = ((m * n : Nat) : ℚ)
  rw [zpow_add₀ two_ne_zero]
  push_cast
  field_simp

/-- The bits that are kept of a remainder say how large it is beside the divisor. -/
theorem standsFor_fraction (k : Nat) (hn : 0 < n) :
    StandsFor (.ofMantissaAndAccuracy (k / n) (accuracyOfFraction (k % n) n)) (k / n : ℚ) := by
  have hpos : (0 : ℚ) < n := by exact_mod_cast hn
  have hmod : k % n < n := Nat.mod_lt k hn
  have hx : (k : ℚ) / n = (k / n : Nat) + (k % n : Nat) / n := by
    have hdiv : (n : ℚ) * (k / n : Nat) + (k % n : Nat) = k := by exact_mod_cast Nat.div_add_mod k n
    rw [div_eq_iff hpos.ne', add_mul, div_mul_cancel₀ _ hpos.ne', mul_comm]
    exact hdiv.symm
  rw [hx, accuracyOfFraction]
  generalize k / n = q
  generalize k % n = r at hmod
  split
  · next hzero =>
    change (q : ℚ) + r / n = q
    rw [hzero, Nat.cast_zero, zero_div, add_zero]
  · next hrest =>
    have hfrac : (0 : ℚ) < r / n := div_pos (by exact_mod_cast Nat.pos_of_ne_zero hrest) hpos
    have hone : (r : ℚ) / n < 1 := (div_lt_one hpos).2 (by exact_mod_cast hmod)
    have hhalf : (r : ℚ) / n < 1 / 2 ↔ 2 * r < n := by
      rw [div_lt_div_iff₀ hpos two_pos, one_mul, mul_comm, ← Nat.cast_ofNat, ← Nat.cast_mul, Nat.cast_lt]
    have hhalf' : (1 : ℚ) / 2 < r / n ↔ n < 2 * r := by
      rw [div_lt_div_iff₀ two_pos hpos, one_mul, mul_comm, ← Nat.cast_ofNat, ← Nat.cast_mul, Nat.cast_lt]
    rcases lt_trichotomy (2 * r) n with hlt | heq | hgt
    · rw [Nat.compare_eq_lt.2 hlt]
      change (q : ℚ) < q + r / n ∧ (q : ℚ) + r / n < q + 1 / 2
      exact ⟨by linarith, by linarith [hhalf.2 hlt]⟩
    · rw [Nat.compare_eq_eq.2 heq]
      change (q : ℚ) + r / n = q + 1 / 2
      rw [le_antisymm (not_lt.1 fun h => heq.not_gt (hhalf'.1 h)) (not_lt.1 fun h => heq.not_lt (hhalf.1 h))]
    · rw [Nat.compare_eq_gt.2 hgt]
      change (q : ℚ) + 1 / 2 < q + r / n ∧ (q : ℚ) + r / n < q + 1
      exact ⟨by linarith [hhalf'.2 hgt], by linarith⟩

/-- The quotient of two positive numbers is their exact quotient, rounded. -/
theorem div_nearest (hm : 0 < m) (hn : 0 < n) :
    ∃ k t, Nearest (m * 2 ^ e / (n * 2 ^ f)) k t ∧
      UnpackedFloat.div .binary64 (.finite .positive m e hm) (.finite .positive n f hn) =
        finiteOrZero .positive k t := by
  have hdiv : UnpackedFloat.div .binary64 (.finite .positive m e hm) (.finite .positive n f hn) =
      (let core := divCore .binary64 m e n f
      roundWithAccuracy .binary64 .positive core.1 core.2.1 core.2.2) := rfl
  have hexp : divisionExponent m e n f ≤ e - f := min_le_left ..
  rw [hdiv, divCore_eq]
  refine roundWithAccuracy_nearest (divisionExponent_le_exponentFor hm hn) ?_ (normal_division hm hn)
  have hunits : (m : ℚ) * 2 ^ e / (n * 2 ^ f) / 2 ^ divisionExponent m e n f = dividend m e n f / n := by
    have hpos : (0 : ℚ) < n := by exact_mod_cast hn
    have hmoved : (dividend m e n f : ℚ) * 2 ^ divisionExponent m e n f = m * 2 ^ (e - f) := by
      rw [dividend, mul_two_pow_of_le m hexp]
    rw [zpow_sub₀ two_ne_zero] at hmoved
    rw [div_eq_iff (by positivity), div_mul_eq_mul_div, hmoved]
    field_simp
  rw [hunits]
  exact standsFor_fraction _ hn

/-! ### Numbers that results are rounded to -/

/-- The number is what the positive rational is rounded to, which may be infinite. -/
def Rounded (v : ℚ) (x : Number) : Prop :=
  ∃ m e, Nearest v m e ∧
    (e ≤ 971 ∧ x.isFinite ∧ x.value = m * 2 ^ e ∨ 971 < e ∧ x.unpack = .infinity .positive)

theorem Rounded.of_pack {x : Number} (h : Nearest v m e) (hx : x.unpack = UnpackedFloat.unpack .binary64
    (UnpackedFloat.pack .binary64 (finiteOrZero .positive m e))) : Rounded v x := by
  refine ⟨m, e, h, ?_⟩
  rw [finiteOrZero] at hx
  split at hx
  · next hzero =>
    have hsmall : e = -1074 := h.normal.full.resolve_left (by omega)
    have hu := unpack_of_written_zero hx
    refine Or.inl ⟨by omega, isFinite_of_zero hu, ?_⟩
    rw [value_of_zero hu, hzero, Nat.cast_zero, zero_mul]
  · exact value_of_pack h.normal hx

section Results

variable {a b c x y : Number}

theorem rounded_mul (ha : a.isFinite) (hpos : 0 < a.value) (hb : b.isFinite) (hpos' : 0 < b.value) :
    Rounded (a.value * b.value) (a * b) := by
  obtain ⟨m, e, hm, hua⟩ := unpack_of_pos ha hpos
  obtain ⟨n, f, hn, hub⟩ := unpack_of_pos hb hpos'
  obtain ⟨k, t, hnearest, hmul⟩ := mul_nearest hm hn (normal_of_unpack hua) (normal_of_unpack hub)
  rw [← value_of_positive hua, ← value_of_positive hub] at hnearest
  refine .of_pack hnearest ?_
  rw [unpack_mul, hua, hub, hmul]

theorem rounded_div (ha : a.isFinite) (hpos : 0 < a.value) (hb : b.isFinite) (hpos' : 0 < b.value) :
    Rounded (a.value / b.value) (a / b) := by
  obtain ⟨m, e, hm, hua⟩ := unpack_of_pos ha hpos
  obtain ⟨n, f, hn, hub⟩ := unpack_of_pos hb hpos'
  obtain ⟨k, t, hnearest, hdiv⟩ := div_nearest (e := e) (f := f) hm hn
  rw [← value_of_positive hua, ← value_of_positive hub] at hnearest
  refine .of_pack hnearest ?_
  rw [unpack_div, hua, hub, hdiv]

namespace Rounded

/-- If it is not infinite, its value is the nearest. -/
theorem nearest_of_isFinite (h : Rounded v x) (hx : x.isFinite) :
    ∃ m e, Nearest v m e ∧ x.value = m * 2 ^ e := by
  obtain ⟨m, e, hnearest, ⟨-, -, hvalue⟩ | ⟨-, hinf⟩⟩ := h
  · exact ⟨m, e, hnearest, hvalue⟩
  · rw [isFinite_eq, hinf] at hx
    cases hx

theorem value_nonneg (h : Rounded v x) (hx : x.isFinite) : 0 ≤ x.value := by
  obtain ⟨m, e, -, hvalue⟩ := h.nearest_of_isFinite hx
  rw [hvalue]
  positivity

/-- What is below a number that is not above the exact result is below it. -/
theorem lt (h : Rounded v x) (hb : b.isFinite) (hc : c.isFinite) (hpos : 0 < c.value)
    (hlt : b.value < c.value) (hle : c.value ≤ v) : b < x := by
  obtain ⟨m, e, hnearest, ⟨-, hx, hvalue⟩ | ⟨-, hinf⟩⟩ := h
  · obtain ⟨n, f, hn, huc⟩ := unpack_of_pos hc hpos
    rw [value_of_positive huc] at hlt hle
    have hle := hnearest.le (normal_of_unpack huc) hle
    rw [lt_iff hb hx, hvalue]
    exact hlt.trans_le hle
  · exact lt_infinity hb hinf

/-- It is not above a power of two unless the exact result is. -/
theorem pow_lt (h : Rounded v x) (hx : x.isFinite) (hf : -1022 ≤ f) (hlt : (2 : ℚ) ^ f < x.value) :
    2 ^ f < v := by
  by_contra! hle
  obtain ⟨m, e, hnearest, hvalue⟩ := h.nearest_of_isFinite hx
  have hge := hnearest.ge (Nearest.normal_pow hf) (hle.trans_eq (Nearest.value_pow f).symm)
  rw [Nearest.value_pow, ← hvalue] at hge
  exact absurd hlt hge.not_gt

/-- It is the exact result if a number stands for this. -/
theorem exact (h : Rounded v x) (hc : c.isFinite) (hpos : 0 < c.value) (heq : c.value = v) :
    x.isFinite ∧ x.value = c.value := by
  obtain ⟨m, e, hnearest, hvalue⟩ := h
  obtain ⟨n, f, hn, huc⟩ := unpack_of_pos hc hpos
  have hnormal := normal_of_unpack huc
  rw [value_of_positive huc] at heq ⊢
  have hkept := hnearest.eq hnormal heq.symm
  obtain ⟨-, hexp⟩ := eq_of_normal hnearest.normal hnormal hkept
  rcases hvalue with ⟨-, hx, hvalue⟩ | ⟨hlarge, -⟩
  · exact ⟨hx, hvalue.trans hkept⟩
  · have := exponent_le_of_unpack huc
    omega

/-- A power of two times as much is rounded to that many times as much. -/
theorem scale (h : Rounded v x) (hx : x.isFinite) {k : Nat} (h' : Rounded (2 ^ k * v) y) (hy : y.isFinite)
    (hlow : (2 : ℚ) ^ (-1000 : Int) ≤ v) : y.value = 2 ^ k * x.value := by
  obtain ⟨m, e, hnearest, hvalue⟩ := h.nearest_of_isFinite hx
  obtain ⟨n, f, hnearest', hvalue'⟩ := h'.nearest_of_isFinite hy
  rw [hvalue, hvalue']
  exact hnearest.scale hnearest' hlow

end Rounded

end Results

end Number

end RadioOccupancy
