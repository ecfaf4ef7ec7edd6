import Mathlib
import RadioOccupancy.Proofs.Sum

/-!
Where arithmetic is exact.

A sum or a difference of times is rounded only if it has to be: if there is a finite number for the exact
result, the result is that number (`add_of_value`, `sub_of_value`). Rounding keeps such a number because there
is only one way to write it (`eq_of_normal`), so that no bits of it are cut off (`round_of_value`).

A quotient is rounded as a rule. But the quotient of a time and one that is not less can not be rounded past
one (`div_of_le`): one is among the numbers that can be written.
-/

namespace RadioOccupancy

namespace Number
open Float.Model Float.Model.UnpackedFloat

theorem unpack_sub (a b : Number) :
    (a - b).unpack = UnpackedFloat.unpack .binary64 (UnpackedFloat.pack .binary64
      (UnpackedFloat.sub .binary64 a.unpack b.unpack)) := rfl

theorem unpack_div (a b : Number) :
    (a / b).unpack = UnpackedFloat.unpack .binary64 (UnpackedFloat.pack .binary64
      (UnpackedFloat.div .binary64 a.unpack b.unpack)) := rfl

/-! ### Rounding what can be written -/

theorem eq_of_normal {m n : Nat} {e f : Int} (hm : Normal m e) (hn : Normal n f)
    (h : (m : ℚ) * 2 ^ e = n * 2 ^ f) : m = n ∧ e = f := by
  have hcompare := compare_magnitude hm hn
  rw [h, compare_eq_iff_eq.2 rfl, Ordering.then_eq_eq, compare_eq_iff_eq, compare_eq_iff_eq] at hcompare
  exact hcompare.symm

/-- The next significand after that of a number is not past any larger number. -/
theorem succ_mul_le {m n : Nat} {e f : Int} (hm : Normal m e) (hn : Normal n f)
    (h : (m : ℚ) * 2 ^ e < n * 2 ^ f) : ((m + 1 : Nat) : ℚ) * 2 ^ e ≤ n * 2 ^ f := by
  rcases lt_trichotomy e f with hlt | rfl | hgt
  · have hm' : ((m + 1 : Nat) : ℚ) ≤ 2 ^ 53 := by exact_mod_cast hm.lt
    have hn' : (2 : ℚ) ^ 52 ≤ n := by
      exact_mod_cast hn.full.resolve_right (by have := hm.least; omega)
    calc ((m + 1 : Nat) : ℚ) * 2 ^ e ≤ 2 ^ 53 * 2 ^ e := by gcongr
      _ = 2 ^ 52 * 2 ^ (e + 1) := by
        rw [zpow_add_one₀ (by norm_num)]
        ring
      _ ≤ n * 2 ^ f := by
        gcongr
        · norm_num
        · omega
  · have hpos : (0 : ℚ) < 2 ^ e := by positivity
    have hlt : m + 1 ≤ n := by exact_mod_cast lt_of_mul_lt_mul_right h hpos.le
    gcongr
  · exact absurd h (mul_lt_mul_of_exponent_lt hn hm hgt).not_gt

theorem exponent_le_of_unpack {x : Number} {s : Sign} {m : Nat} {e : Int} {h : 0 < m}
    (hx : x.unpack = .finite s m e h) : e ≤ 971 := by
  have hbias : ((Format.binary64.exponentBias : Nat) : Int) = 1023 := rfl
  have hlt := (@unpackExponent Format.binary64 x.toBits.toBitVec).isLt
  change _ < 2048 at hlt
  rcases ite_eq_iff.1 hx with ⟨-, hx⟩ | ⟨htop, hx⟩
  · rcases ite_eq_iff.1 hx with ⟨-, ⟨⟩⟩ | ⟨-, ⟨⟩⟩
  have hne : (@unpackExponent Format.binary64 x.toBits.toBitVec).toNat ≠ 2047 :=
    fun h => htop (BitVec.eq_of_toNat_eq h)
  rcases ite_eq_iff.1 hx with ⟨hzero, hx⟩ | ⟨-, hx⟩
  · rcases dite_eq_iff.1 hx with ⟨_, ⟨⟩⟩ | ⟨_, hx⟩
    obtain ⟨-, -, rfl⟩ := UnpackedFloat.finite.inj hx
    rw [hzero]
    decide
  · obtain ⟨-, -, rfl⟩ := UnpackedFloat.finite.inj hx
    change ((@unpackExponent Format.binary64 _).toNat : Int) - (1023 + 52) ≤ 971
    omega

/-- A number that can be written is rounded to itself. -/
theorem round_of_value {m n : Nat} {e f : Int} (hn : Normal n f) (hpos : 0 < n)
    (h : (m : ℚ) * 2 ^ e = n * 2 ^ f) :
    round .binary64 .positive m e = .finite .positive n f hpos := by
  have hm : 0 < m := pos_of_mul_two_pow_pos ((by positivity : (0 : ℚ) < n * 2 ^ f).trans_eq h.symm)
  have hkept : (quotient m e (exponentFor m e) : ℚ) * 2 ^ exponentFor m e = m * 2 ^ e := by
    refine le_antisymm (quotient_mul_le ..) ?_
    rw [h]
    exact le_quotient_mul hn hm h.ge
  obtain ⟨m', e', hnormal, hround, ⟨hup, -⟩ | ⟨-, heq⟩⟩ := round_spec hm e
  · exact absurd hup (not_roundsUp_of_le hkept.ge)
  · rw [hkept, h] at heq
    obtain ⟨rfl, rfl⟩ := eq_of_normal hnormal hn heq
    exact hround.trans (dif_neg hpos.ne')

section Written

variable {x c : Number}

theorem value_eq_of_unpack (h : x.unpack = c.unpack) : x.value = c.value := by
  rw [value, value, h]

theorem unpack_of_written {m : Nat} {e : Int} {h : 0 < m} (hc : c.unpack = .finite .positive m e h)
    (hx : x.unpack = UnpackedFloat.unpack .binary64
      (UnpackedFloat.pack .binary64 (.finite .positive m e h))) : x.unpack = c.unpack := by
  rw [hx, hc, unpack_pack_of_le h (normal_of_unpack hc) (exponent_le_of_unpack hc)]

theorem unpack_of_written_zero {s : Sign}
    (hx : x.unpack = UnpackedFloat.unpack .binary64 (UnpackedFloat.pack .binary64 (.zero s))) :
    x.unpack = .zero s := by
  rw [hx]
  cases s <;> rfl

theorem isFinite_of_zero {s : Sign} (hx : x.unpack = .zero s) : x.isFinite := by
  rw [isFinite_eq, hx]
  rfl

/-- A positive finite number has a positive significand. -/
theorem unpack_of_pos (hfin : x.isFinite) (h : 0 < x.value) :
    ∃ m e, ∃ hm : 0 < m, x.unpack = .finite .positive m e hm := by
  rcases unpack_of_isTime (isTime_iff.2 ⟨hfin, h.le⟩) with ⟨s, hu⟩ | hu
  · rw [value_of_zero hu] at h
    exact absurd h (lt_irrefl 0)
  · exact hu

/-- A rounded result is exact if a finite number stands for the exact one. -/
theorem unpack_of_round {k : Nat} {e : Int} (hc : c.isFinite) (hpos : 0 < c.value)
    (h : (k : ℚ) * 2 ^ e = c.value)
    (hx : x.unpack = UnpackedFloat.unpack .binary64
      (UnpackedFloat.pack .binary64 (round .binary64 .positive k e))) : x.unpack = c.unpack := by
  obtain ⟨n, f, hn, huc⟩ := unpack_of_pos hc hpos
  rw [value_of_positive huc] at h
  rw [round_of_value (normal_of_unpack huc) hn h] at hx
  exact unpack_of_written huc hx

end Written

/-! ### Sums and differences -/

section Exact

variable {a b c : Number}

/-- A sum of times is exact if there is a finite number for it. -/
theorem add_of_value (ha : a.isTime) (hb : b.isTime) (hc : c.isFinite) (h : c.value = a.value + b.value) :
    (a + b).isFinite ∧ (a + b).value = c.value := by
  have hsum := unpack_add a b
  rcases unpack_of_isTime ha with ⟨s, hua⟩ | ⟨m, e, hm, hua⟩ <;>
    rcases unpack_of_isTime hb with ⟨t, hub⟩ | ⟨n, f, hn, hub⟩ <;> rw [hua, hub] at hsum
  · have hzero : ∃ s, (a + b).unpack = .zero s := by
      rw [hsum]
      cases s <;> cases t <;> exact ⟨_, rfl⟩
    obtain ⟨s, hzero⟩ := hzero
    rw [value_of_zero hua, value_of_zero hub, add_zero] at h
    exact ⟨isFinite_of_zero hzero, (value_of_zero hzero).trans h.symm⟩
  · have heq := unpack_of_written hub hsum
    rw [value_of_zero hua, zero_add] at h
    refine ⟨?_, (value_eq_of_unpack heq).trans h.symm⟩
    rw [isFinite_eq, heq]
    exact isFinite_of_isTime hb
  · have heq := unpack_of_written hua hsum
    rw [value_of_zero hub, add_zero] at h
    refine ⟨?_, (value_eq_of_unpack heq).trans h.symm⟩
    rw [isFinite_eq, heq]
    exact isFinite_of_isTime ha
  · obtain ⟨k, hadd, hk⟩ := add_positive (e := e) (f := f) hm hn
    rw [value_of_positive hua, value_of_positive hub] at h
    have hpos : 0 < c.value := by
      rw [h]
      positivity
    rw [hadd] at hsum
    have heq := unpack_of_round hc hpos (hk.trans h.symm) hsum
    refine ⟨?_, value_eq_of_unpack heq⟩
    rw [isFinite_eq, heq]
    exact hc

/-- The difference of two positive numbers is their exact difference, rounded, if this is positive. -/
theorem sub_positive {m n : Nat} {e f : Int} (hm : 0 < m) (hn : 0 < n) (h : (n : ℚ) * 2 ^ f < m * 2 ^ e) :
    ∃ k : Nat, UnpackedFloat.sub .binary64 (.finite .positive m e hm) (.finite .positive n f hn) =
      round .binary64 .positive k (min e f) ∧ (k : ℚ) * 2 ^ min e f = m * 2 ^ e - n * 2 ^ f := by
  have hpos : (0 : ℚ) < 2 ^ min e f := by positivity
  have hlt : n * 2 ^ (f - min e f).toNat < m * 2 ^ (e - min e f).toNat := by
    rw [← mul_two_pow_of_le m (min_le_left e f), ← mul_two_pow_of_le n (min_le_right e f)] at h
    exact_mod_cast lt_of_mul_lt_mul_right h hpos.le
  refine ⟨m * 2 ^ (e - min e f).toNat - n * 2 ^ (f - min e f).toNat, ?_, ?_⟩
  · change UnpackedFloat.normalize .binary64 (((m <<< (e - min e f).toNat : Nat) : Int) -
      ((n <<< (f - min e f).toNat : Nat) : Int)) (min e f) .positive = _
    rw [Nat.shiftLeft_eq, Nat.shiftLeft_eq, ← Nat.cast_sub hlt.le, UnpackedFloat.normalize,
      Int.compare_eq_gt.2]
    · rfl
    · exact_mod_cast Nat.sub_pos_of_lt hlt
  · rw [Nat.cast_sub hlt.le, sub_mul, mul_two_pow_of_le m (min_le_left e f),
      mul_two_pow_of_le n (min_le_right e f)]

theorem sub_self_positive {m : Nat} {e : Int} (hm : 0 < m) :
    UnpackedFloat.sub .binary64 (.finite .positive m e hm) (.finite .positive m e hm) =
      .zero .positive := by
  change UnpackedFloat.normalize .binary64 (((m <<< (e - min e e).toNat : Nat) : Int) -
    ((m <<< (e - min e e).toNat : Nat) : Int)) (min e e) .positive = _
  rw [sub_self]
  rfl

/-- The difference of a time and one that is not greater is exact if there is a finite number for it. -/
theorem sub_of_value (ha : a.isTime) (hb : b.isTime) (hle : b.value ≤ a.value) (hc : c.isFinite)
    (h : c.value = a.value - b.value) : (a - b).isFinite ∧ (a - b).value = c.value := by
  have hdiff := unpack_sub a b
  rcases unpack_of_isTime ha with ⟨s, hua⟩ | ⟨m, e, hm, hua⟩ <;>
    rcases unpack_of_isTime hb with ⟨t, hub⟩ | ⟨n, f, hn, hub⟩ <;> rw [hua, hub] at hdiff
  · have hzero : ∃ s, (a - b).unpack = .zero s := by
      rw [hdiff]
      cases s <;> cases t <;> exact ⟨_, rfl⟩
    obtain ⟨s, hzero⟩ := hzero
    rw [value_of_zero hua, value_of_zero hub, sub_zero] at h
    exact ⟨isFinite_of_zero hzero, (value_of_zero hzero).trans h.symm⟩
  · rw [value_of_zero hua, value_of_positive hub] at hle
    have : (0 : ℚ) < n * 2 ^ f := by positivity
    exact absurd hle (not_le.2 this)
  · have heq := unpack_of_written hua hdiff
    rw [value_of_zero hub, sub_zero] at h
    refine ⟨?_, (value_eq_of_unpack heq).trans h.symm⟩
    rw [isFinite_eq, heq]
    exact isFinite_of_isTime ha
  · rw [value_of_positive hua, value_of_positive hub] at h hle
    rcases hle.eq_or_lt with heq | hlt
    · obtain ⟨rfl, rfl⟩ := eq_of_normal (normal_of_unpack hub) (normal_of_unpack hua) heq
      rw [sub_self_positive] at hdiff
      have hzero := unpack_of_written_zero hdiff
      rw [sub_self] at h
      exact ⟨isFinite_of_zero hzero, (value_of_zero hzero).trans h.symm⟩
    · obtain ⟨k, hsub, hk⟩ := sub_positive (e := e) (f := f) hm hn hlt
      have hpos : 0 < c.value := by
        rw [h]
        exact sub_pos.2 hlt
      rw [hsub] at hdiff
      have heq := unpack_of_round hc hpos (hk.trans h.symm) hdiff
      refine ⟨?_, value_eq_of_unpack heq⟩
      rw [isFinite_eq, heq]
      exact hc

end Exact

/-! ### Shares -/

section Share

/-- The magnitude of a number bounds its exponent. -/
theorem exponent_le_of_lt {n : Nat} {t k : Int} (h : Normal n t) (hk : -1074 ≤ k)
    (hlt : (n : ℚ) * 2 ^ t < 2 ^ (53 + k)) : t ≤ k := by
  by_contra! hlarge
  have hfull : (2 : ℚ) ^ 52 ≤ n := by exact_mod_cast h.full.resolve_right (by omega)
  have hpow : (2 : ℚ) ^ (k + 1) ≤ 2 ^ t := zpow_le_zpow_right₀ one_le_two hlarge
  refine hlt.not_ge ?_
  calc (2 : ℚ) ^ (53 + k) = 2 ^ 52 * 2 ^ (k + 1) := by
        rw [zpow_add₀ two_ne_zero, zpow_add_one₀ two_ne_zero]
        norm_num
        ring
    _ ≤ n * 2 ^ t := mul_le_mul hfull hpow (by positivity) (by positivity)

/-- What is not above one has no positive exponent. -/
theorem exponent_nonpos {n : Nat} {t : Int} (h : Normal n t) (hle : (n : ℚ) * 2 ^ t ≤ 1) : t ≤ 0 :=
  exponent_le_of_lt h (by norm_num) (hle.trans_lt (by norm_num))

theorem normal_one : Normal (2 ^ 52) (-52) :=
  ⟨by norm_num, by norm_num, Or.inl le_rfl⟩

/-- The next number after one below one is not above one. -/
theorem succ_mul_le_one {n : Nat} {t : Int} (h : Normal n t) (hlt : (n : ℚ) * 2 ^ t < 1) :
    ((n + 1 : Nat) : ℚ) * 2 ^ t ≤ 1 := by
  have hone : ((2 ^ 52 : Nat) : ℚ) * 2 ^ (-52 : Int) = 1 := by norm_num [zpow_neg]
  rw [← hone] at hlt ⊢
  exact succ_mul_le h normal_one hlt

variable {m n : Nat} {e f : Int}

/-- The exponent in which a quotient is computed. -/
def divisionExponent (m : Nat) (e : Int) (n : Nat) (f : Int) : Int :=
  min (e - f) (max (m.log2 + 1 + e - (n.log2 + 1 + f) - 53) (-1074))

/-- The significand that is divided. -/
def dividend (m : Nat) (e : Int) (n : Nat) (f : Int) : Nat :=
  m * 2 ^ (e - f - divisionExponent m e n f).toNat

theorem divCore_eq : divCore .binary64 m e n f =
    (dividend m e n f / n, divisionExponent m e n f, accuracyOfFraction (dividend m e n f % n) n) := by
  rw [dividend, ← Nat.shiftLeft_eq]
  rfl

/-- A quotient is computed with as many bits as a significand has, unless it is too small for that. -/
theorem divisionExponent_le (hm : 0 < m) (hn : 0 < n) :
    divisionExponent m e n f ≤ -1074 ∨
      divisionExponent m e n f + 53 ≤ (dividend m e n f / n).log2 + 1 + divisionExponent m e n f := by
  refine or_iff_not_imp_left.2 fun hlarge => ?_
  have htop : divisionExponent m e n f ≤ m.log2 + e - (n.log2 + f) - 53 := by
    unfold divisionExponent at hlarge ⊢
    omega
  have hfit : n.log2 + 53 ≤ (dividend m e n f).log2 := by
    rw [dividend, log2_mul_two_pow hm]
    omega
  have hbits : 2 ^ 52 ≤ dividend m e n f / n := by
    rw [Nat.le_div_iff_mul_le hn]
    calc 2 ^ 52 * n ≤ 2 ^ 52 * 2 ^ (n.log2 + 1) := by
          gcongr
          exact Nat.lt_log2_self.le
      _ = 2 ^ (n.log2 + 53) := by ring
      _ ≤ 2 ^ (dividend m e n f).log2 := Nat.pow_le_pow_right two_pos hfit
      _ ≤ dividend m e n f := Nat.log2_self_le (by rw [dividend]; positivity)
  have : 52 ≤ (dividend m e n f / n).log2 := (Nat.le_log2 (by omega)).2 hbits
  omega

theorem divisionExponent_le_exponentFor (hm : 0 < m) (hn : 0 < n) :
    divisionExponent m e n f ≤ exponentFor (dividend m e n f / n) (divisionExponent m e n f) := by
  have := divisionExponent_le (e := e) (f := f) hm hn
  unfold exponentFor
  omega

/-- The computed quotient is not above the exact one. -/
theorem div_mul_le :
    ((dividend m e n f / n : Nat) : ℚ) * 2 ^ divisionExponent m e n f * (n * 2 ^ f) ≤ m * 2 ^ e := by
  have hle : ((dividend m e n f / n : Nat) : ℚ) * n ≤ dividend m e n f := by
    exact_mod_cast Nat.div_mul_le_self ..
  have ht : divisionExponent m e n f ≤ e - f := min_le_left ..
  calc ((dividend m e n f / n : Nat) : ℚ) * 2 ^ divisionExponent m e n f * (n * 2 ^ f)
      = (dividend m e n f / n : Nat) * n * 2 ^ divisionExponent m e n f * 2 ^ f := by ring
    _ ≤ dividend m e n f * 2 ^ divisionExponent m e n f * 2 ^ f := by gcongr
    _ = m * 2 ^ (e - f) * 2 ^ f := by rw [dividend, mul_two_pow_of_le m ht]
    _ = m * 2 ^ e := by rw [mul_assoc, ← zpow_add₀ two_ne_zero, sub_add_cancel]

/-- A quotient is cut off at the exponent for it, and then rounded. -/
theorem normal_division (hm : 0 < m) (hn : 0 < n) :
    let q := dividend m e n f / n
    let t := divisionExponent m e n f
    Normal (q / 2 ^ (exponentFor q t - t).toNat) (exponentFor q t) := by
  intro q t
  have hle : t ≤ exponentFor q t := divisionExponent_le_exponentFor hm hn
  by_cases hq : 0 < q
  · have hnormal := normal_quotient hq t
    rwa [quotient, Int.toNat_eq_zero.2 (by omega : t - exponentFor q t ≤ 0), pow_zero, mul_one] at hnormal
  · have hq : q = 0 := Nat.eq_zero_of_not_pos hq
    have hsmall := divisionExponent_le (e := e) (f := f) hm hn
    change t ≤ -1074 ∨ t + 53 ≤ q.log2 + 1 + t at hsmall
    rw [hq, Nat.log2_zero] at hsmall
    have hfor : exponentFor q t = -1074 := by
      rw [hq, exponentFor, Nat.log2_zero]
      omega
    rw [hfor, hq, Nat.zero_div]
    exact ⟨by norm_num, le_rfl, Or.inr rfl⟩

/-- Division rounds a quotient below one to a number that is not above one. -/
theorem div_of_lt (hm : 0 < m) (hn : 0 < n) (hlt : (m : ℚ) * 2 ^ e < n * 2 ^ f) :
    ∃ m' e', Normal m' e' ∧ (m' : ℚ) * 2 ^ e' ≤ 1 ∧
      UnpackedFloat.div .binary64 (.finite .positive m e hm) (.finite .positive n f hn) =
        finiteOrZero .positive m' e' := by
  have hdiv : UnpackedFloat.div .binary64 (.finite .positive m e hm) (.finite .positive n f hn) =
      (let core := divCore .binary64 m e n f
      roundWithAccuracy .binary64 .positive core.1 core.2.1 core.2.2) := rfl
  have hnormal := normal_division (e := e) (f := f) hm hn
  have hexact := div_mul_le (m := m) (n := n) (e := e) (f := f)
  have hfor := divisionExponent_le_exponentFor (e := e) (f := f) hm hn
  rw [divCore_eq] at hdiv
  dsimp only at hdiv hnormal
  generalize dividend m e n f / n = q at hdiv hnormal hexact hfor
  generalize accuracyOfFraction (dividend m e n f % n) n = accuracy at hdiv
  generalize divisionExponent m e n f = t at hdiv hnormal hexact hfor
  obtain ⟨hmant, hexp⟩ := shiftToExponent_eq q accuracy hfor
  have hnext := roundedMantissa_eq (shiftToExponent q t accuracy (exponentFor q t)).1
  rw [hmant] at hnext
  obtain ⟨m', e', hmant', hexp', hnormal', heq⟩ := shift_rounded hnormal hnext
  rw [roundWithAccuracy_eq .positive accuracy rfl hexp] at hdiv
  dsimp only at hdiv
  rw [hmant', hexp'] at hdiv
  refine ⟨m', e', hnormal', heq ▸ ?_, hdiv⟩
  have hbelow : (q : ℚ) * 2 ^ t < 1 := by
    have hpos : (0 : ℚ) < n * 2 ^ f := by positivity
    refine lt_of_mul_lt_mul_right ?_ hpos.le
    rw [one_mul]
    exact hexact.trans_lt hlt
  have hcut : ((q / 2 ^ (exponentFor q t - t).toNat : Nat) : ℚ) * 2 ^ exponentFor q t ≤ q * 2 ^ t := by
    have hle := quotient_mul_le q t (exponentFor q t)
    rwa [quotient, Int.toNat_eq_zero.2 (by omega : t - exponentFor q t ≤ 0), pow_zero, mul_one] at hle
  refine le_trans ?_ (succ_mul_le_one hnormal (hcut.trans_lt hbelow))
  have hpos : (0 : ℚ) < 2 ^ exponentFor q t := by positivity
  gcongr
  rcases hnext with h | h <;> omega

/-- A number divided by itself is one. -/
theorem div_self_positive (hm : 0 < m) :
    UnpackedFloat.div .binary64 (.finite .positive m e hm) (.finite .positive m e hm) =
      finiteOrZero .positive (2 ^ 52) (-52) := by
  have hdiv : UnpackedFloat.div .binary64 (.finite .positive m e hm) (.finite .positive m e hm) =
      (let core := divCore .binary64 m e m e
      roundWithAccuracy .binary64 .positive core.1 core.2.1 core.2.2) := rfl
  have hexp : divisionExponent m e m e = -53 := by
    unfold divisionExponent
    omega
  have hdividend : dividend m e m e = 2 ^ 53 * m := by
    rw [dividend, hexp, sub_self]
    exact mul_comm _ _
  have hfor : exponentFor (2 ^ 53) (-53) = -52 := by
    rw [exponentFor, Nat.log2_two_pow]
    norm_num
  have hround : round .binary64 .positive (2 ^ 53) (-53) =
      roundWithAccuracy .binary64 .positive (2 ^ 53) (-53) .exact := by
    change roundWithAccuracy .binary64 .positive (2 ^ 53 <<< (-53 - exponentFor (2 ^ 53) (-53)).toNat)
      (-53 - ((-53 - exponentFor (2 ^ 53) (-53)).toNat : Int)) .exact = _
    rw [hfor]
    rfl
  rw [hdiv, divCore_eq, hdividend, hexp, Nat.mul_div_cancel _ hm, Nat.mul_mod_left]
  have hone : round .binary64 .positive (2 ^ 53) (-53) =
      .finite .positive (2 ^ 52) (-52) (by norm_num) := by
    refine round_of_value normal_one _ ?_
    norm_num [zpow_neg]
  exact hround.symm.trans hone

end Share

/-- The quotient of a time and one that is positive and not less is between zero and one. -/
theorem div_of_le {a b : Number} (ha : a.isTime) (hb : b.isTime) (hpos : 0 < b.value)
    (hle : a.value ≤ b.value) : (a / b).isFinite ∧ 0 ≤ (a / b).value ∧ (a / b).value ≤ 1 := by
  have hquot := unpack_div a b
  obtain ⟨n, f, hn, hub⟩ := unpack_of_pos (isFinite_of_isTime hb) hpos
  have hrounded : ∀ m e, Normal m e → (m : ℚ) * 2 ^ e ≤ 1 →
      (a / b).unpack = UnpackedFloat.unpack .binary64
        (UnpackedFloat.pack .binary64 (finiteOrZero .positive m e)) →
      (a / b).isFinite ∧ 0 ≤ (a / b).value ∧ (a / b).value ≤ 1 := by
    intro m e hnormal hone hu
    by_cases hm : m = 0
    · rw [finiteOrZero, dif_pos hm] at hu
      have hzero := unpack_of_written_zero hu
      rw [value_of_zero hzero]
      exact ⟨isFinite_of_zero hzero, le_rfl, zero_le_one⟩
    · have htop := exponent_nonpos hnormal hone
      rw [finiteOrZero, dif_neg hm, unpack_pack_of_le _ hnormal (by omega)] at hu
      rw [value_of_positive hu, isFinite_eq, hu]
      exact ⟨rfl, by positivity, hone⟩
  rcases unpack_of_isTime ha with ⟨s, hua⟩ | ⟨m, e, hm, hua⟩ <;> rw [hua, hub] at hquot
  · have hzero := unpack_of_written_zero hquot
    rw [value_of_zero hzero]
    exact ⟨isFinite_of_zero hzero, le_rfl, zero_le_one⟩
  · rw [value_of_positive hua, value_of_positive hub] at hle
    rcases hle.eq_or_lt with heq | hlt
    · obtain ⟨rfl, rfl⟩ := eq_of_normal (normal_of_unpack hua) (normal_of_unpack hub) heq
      rw [div_self_positive hm] at hquot
      exact hrounded _ _ normal_one (by norm_num [zpow_neg]) hquot
    · obtain ⟨m', e', hnormal, hone, hdiv⟩ := div_of_lt hm hn hlt
      rw [hdiv] at hquot
      exact hrounded m' e' hnormal hone hquot

end Number

end RadioOccupancy
