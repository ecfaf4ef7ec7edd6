import RadioOccupancy.Proofs.Nearest

/-!
Whole numbers are computed with exactly.

A number below two to the power of fifty-three can be written if it is whole (`exists_whole`). So sums,
differences, products and quotients of whole numbers are not rounded if they are whole numbers of this size
themselves, and comparisons of them are comparisons of what they stand for.
-/

namespace RadioOccupancy

namespace Number
open Float.Model Float.Model.UnpackedFloat

/-- The number stands for a whole one that is not negative. -/
structure Whole (x : Number) (n : Nat) : Prop where
  isFinite : x.isFinite
  value : x.value = n

/-! ### Significands that stand for whole numbers -/

theorem twoTo_eq (n : Nat) : twoTo n = 2 ^ n :=
  rfl

theorem wholePart_value {m : Nat} {q : Int} (h : isWhole m q) : (wholePart m q : ℚ) = m * 2 ^ q := by
  rw [isWhole, Bool.or_eq_true, decide_eq_true_iff, beq_iff_eq, twoTo_eq] at h
  rw [wholePart, twoTo_eq, twoTo_eq]
  split
  · next hq =>
    rw [Nat.cast_mul, Nat.cast_pow, Nat.cast_ofNat, ← zpow_natCast, Int.toNat_of_nonneg hq]
  · next hq =>
    have hdvd : 2 ^ (-q).toNat ∣ m := Nat.dvd_of_mod_eq_zero (h.resolve_left hq)
    have hpow : (2 : ℚ) ^ (-q).toNat = 2 ^ (-q) := by
      rw [← zpow_natCast, Int.toNat_of_nonneg (by omega)]
    rw [Nat.cast_div hdvd (by positivity), Nat.cast_pow, Nat.cast_ofNat, hpow, zpow_neg, div_inv_eq_mul]

/-- The whole part of a significand with its exponent is what they stand for, rounded down. -/
theorem wholePart_eq_floor (m : Nat) (q : Int) : wholePart m q = ⌊(m : ℚ) * 2 ^ q⌋₊ := by
  rw [wholePart, twoTo_eq, twoTo_eq]
  split
  · next hq =>
    have hpow : (2 : ℚ) ^ q = (2 ^ q.toNat : Nat) := by
      rw [Nat.cast_pow, Nat.cast_ofNat, ← zpow_natCast, Int.toNat_of_nonneg hq]
    rw [hpow, ← Nat.cast_mul, Nat.floor_natCast]
  · next hq =>
    have hpow : (2 : ℚ) ^ q = ((2 ^ (-q).toNat : Nat) : ℚ)⁻¹ := by
      rw [Nat.cast_pow, Nat.cast_ofNat, ← zpow_natCast, Int.toNat_of_nonneg (by omega), zpow_neg, inv_inv]
    rw [hpow, ← div_eq_mul_inv, Nat.floor_div_eq_div]

/-- As many units fit into a finite number as its value says. -/
theorem floorNat_eq {x : Number} (h : x.isFinite) : x.floorNat = ⌊x.value⌋₊ := by
  obtain ⟨s, hu⟩ | ⟨s, m, q, hm, hu⟩ := unpack_of_isFinite h
  · rw [floorNat, hu, value_of_zero hu, Nat.floor_zero]
  · rw [floorNat, hu]
    cases s with
    | positive => rw [value_of_positive hu, ← wholePart_eq_floor]
    | negative =>
      have hpos : (0 : ℚ) < m * 2 ^ q := by positivity
      rw [value_of_negative hu, Nat.floor_of_nonpos (by linarith)]

theorem isWhole_of_value {m n : Nat} {q : Int} (h : (m : ℚ) * 2 ^ q = n) : isWhole m q := by
  rw [isWhole, Bool.or_eq_true, decide_eq_true_iff, beq_iff_eq, twoTo_eq]
  refine or_iff_not_imp_left.2 fun hq => ?_
  have hmul : m = n * 2 ^ (-q).toNat := by
    have hone : (2 : ℚ) ^ q * 2 ^ (-q).toNat = 1 := by
      rw [← zpow_natCast, ← zpow_add₀ two_ne_zero, Int.toNat_of_nonneg (by omega), add_neg_cancel, zpow_zero]
    have hcast : (m : ℚ) = n * 2 ^ (-q).toNat := by rw [← h, mul_assoc, hone, mul_one]
    exact_mod_cast hcast
  rw [hmul, Nat.mul_mod_left]

/-- The integer that is read off a number is its value. -/
theorem value_of_toInt? {x : Number} {z : Int} (h : x.toInt? = some z) : x.isFinite ∧ x.value = z := by
  rw [isFinite_eq, value]
  rw [toInt?] at h
  cases hu : x.unpack with
  | zero s =>
    rw [hu] at h
    obtain rfl := Option.some.inj h
    exact ⟨rfl, Int.cast_zero.symm⟩
  | finite s m q hm =>
    rw [hu] at h
    dsimp only at h
    split at h
    · next hwhole =>
      obtain rfl := Option.some.inj h
      refine ⟨rfl, ?_⟩
      have hpart := wholePart_value hwhole
      cases s with
      | positive =>
        change ((m : Int) : ℚ) * 2 ^ q = ((wholePart m q : Int) : ℚ)
        rw [Int.cast_natCast, Int.cast_natCast, hpart]
      | negative =>
        change ((-(m : Int) : Int) : ℚ) * 2 ^ q = ((-(wholePart m q : Int) : Int) : ℚ)
        rw [Int.cast_neg, Int.cast_neg, Int.cast_natCast, Int.cast_natCast, hpart, neg_mul]
    · cases h
  | infinity | notANumber =>
    rw [hu] at h
    cases h

theorem whole_of_toInt? {x : Number} {n : Nat} (h : x.toInt? = some (n : Int)) : Whole x n := by
  obtain ⟨hfin, hvalue⟩ := value_of_toInt? h
  exact ⟨hfin, hvalue.trans (Int.cast_natCast n)⟩

theorem exists_whole {n : Nat} (h : n < 2 ^ 53) : ∃ x, Whole x n := by
  rcases Nat.eq_zero_or_pos n with rfl | hpos
  · exact ⟨0, isFinite_zero, value_zero⟩
  · have hlog : n.log2 < 53 := (Nat.log2_lt hpos.ne').2 h
    have hpow : 2 ^ 53 = 2 ^ (n.log2 + 1) * 2 ^ (52 - n.log2) := by
      rw [← pow_add]
      congr 1
      omega
    have hpow' : 2 ^ 52 = 2 ^ n.log2 * 2 ^ (52 - n.log2) := by
      rw [← pow_add]
      congr 1
      omega
    have hnormal : Normal (n * 2 ^ (52 - n.log2)) (n.log2 - 52) := by
      refine ⟨?_, by omega, Or.inl ?_⟩
      · rw [hpow]
        exact Nat.mul_lt_mul_of_pos_right Nat.lt_log2_self (by positivity)
      · rw [hpow']
        exact Nat.mul_le_mul_right _ (Nat.log2_self_le hpos.ne')
    obtain ⟨x, hfin, hvalue⟩ := exists_of_normal (by positivity) hnormal (by omega)
    refine ⟨x, hfin, hvalue.trans ?_⟩
    have hexp : (n.log2 : Int) - 52 = -((52 - n.log2 : Nat) : Int) := by omega
    rw [hexp, zpow_neg, zpow_natCast]
    push_cast
    field_simp

theorem isFinite_key (x : Number) : x.key.isFinite = x.isFinite := by
  rw [key, isFinite_eq]
  cases x.unpack <;> rfl

namespace Whole

variable {a b x : Number} {i j k n : Nat}

theorem isTime (h : Whole x n) : x.isTime :=
  isTime_iff.2 ⟨h.isFinite, h.value ▸ Nat.cast_nonneg n⟩

theorem value_pos (h : Whole x n) (hn : 0 < n) : 0 < x.value := by
  rw [h.value]
  exact_mod_cast hn

theorem unique (h : Whole x i) (h' : Whole x j) : i = j := by
  exact_mod_cast h.value.symm.trans h'.value

/-! ### Questions -/

theorem lt_iff (ha : Whole a i) (hb : Whole b j) : a < b ↔ i < j := by
  rw [Number.lt_iff ha.isFinite hb.isFinite, ha.value, hb.value, Nat.cast_lt]

theorem le_iff (ha : Whole a i) (hb : Whole b j) : a ≤ b ↔ i ≤ j := by
  rw [Number.le_iff ha.isFinite hb.isFinite, ha.value, hb.value, Nat.cast_le]

theorem beq_iff (ha : Whole a i) (hb : Whole b j) : a == b ↔ i = j := by
  rw [beq_iff_compare, compare_unpack ha.isFinite hb.isFinite, Option.some.injEq, compare_eq_iff_eq, ha.value,
    hb.value, Nat.cast_inj]

/-- What equals a whole number is one. -/
theorem of_beq (ha : Whole a n) (h : a == b) : Whole b n := by
  have hsame : a.same b := by rw [same, h, Bool.true_or]
  have hb : b.isFinite := by
    rw [← isFinite_key, ← (same_iff_key a b).1 hsame, isFinite_key]
    exact ha.isFinite
  exact ⟨hb, ((same_iff_value ha.isFinite hb).1 hsame).symm.trans ha.value⟩

theorem isInteger (h : Whole x n) : x.isInteger := by
  rw [Number.isInteger]
  rcases unpack_of_isTime h.isTime with ⟨s, hu⟩ | ⟨m, q, hm, hu⟩
  · rw [hu]
  · have hvalue := h.value
    rw [value_of_positive hu] at hvalue
    rw [hu]
    exact isWhole_of_value hvalue

/-- The integer that a whole number stands for is read off it. -/
theorem toInt? (h : Whole x n) : x.toInt? = some (n : Int) := by
  have hsome : x.toInt?.isSome := by
    have hint := h.isInteger
    rw [Number.isInteger] at hint
    rw [Number.toInt?]
    cases hu : x.unpack with
    | zero s => rfl
    | finite s m q hm =>
      rw [hu] at hint
      dsimp only at hint ⊢
      rw [if_pos hint]
      rfl
    | infinity | notANumber =>
      rw [hu] at hint
      cases hint
  obtain ⟨z, hz⟩ := Option.isSome_iff_exists.1 hsome
  have hzn : (z : ℚ) = n := (value_of_toInt? hz).2.symm.trans h.value
  rw [hz]
  exact congrArg some (by exact_mod_cast hzn)

theorem floorNat (h : Whole x n) : x.floorNat = n := by
  rw [floorNat_eq h.isFinite, h.value, Nat.floor_natCast]

end Whole

/-- A finite number without a fractional part that is not negative is whole. -/
theorem exists_whole_of_isInteger {x : Number} (h : x.isInteger) (hnonneg : 0 ≤ x.value) :
    ∃ n, Whole x n := by
  have hfin := isFinite_of_isInteger h
  rw [Number.isInteger] at h
  rcases unpack_of_isTime (isTime_iff.2 ⟨hfin, hnonneg⟩) with ⟨s, hu⟩ | ⟨m, q, hm, hu⟩
  · exact ⟨0, hfin, (value_of_zero hu).trans Nat.cast_zero.symm⟩
  · rw [hu] at h
    exact ⟨wholePart m q, hfin, (value_of_positive hu).trans (wholePart_value h).symm⟩

theorem whole_zero : Whole 0 0 :=
  ⟨isFinite_zero, value_zero.trans Nat.cast_zero.symm⟩

theorem whole_one : Whole 1 1 :=
  whole_of_toInt? (by decide)

/-- No unit fits into a number unless it is at least one. -/
theorem floorNat_of_not_le {x : Number} (h : ¬1 ≤ x) : x.floorNat = 0 := by
  by_cases hfin : x.isFinite
  · rw [Number.le_iff whole_one.isFinite hfin, whole_one.value, Nat.cast_one, not_le] at h
    rw [floorNat_eq hfin, Nat.floor_eq_zero.2 h]
  · rw [isFinite_eq] at hfin
    rw [floorNat]
    cases hu : x.unpack with
    | zero => rfl
    | finite =>
      rw [hu] at hfin
      exact absurd rfl hfin
    | notANumber | infinity => rfl

namespace Whole

variable {a b : Number} {i j k : Nat}

/-! ### Arithmetic -/

theorem add (ha : Whole a i) (hb : Whole b j) (h : i + j < 2 ^ 53) : Whole (a + b) (i + j) := by
  obtain ⟨c, hc⟩ := exists_whole h
  obtain ⟨hfin, hvalue⟩ := add_of_value ha.isTime hb.isTime hc.isFinite
    (by rw [hc.value, ha.value, hb.value, Nat.cast_add])
  exact ⟨hfin, hvalue.trans hc.value⟩

theorem sub (ha : Whole a i) (hb : Whole b j) (hle : j ≤ i) (h : i < 2 ^ 53) : Whole (a - b) (i - j) := by
  obtain ⟨c, hc⟩ := exists_whole (n := i - j) (by omega)
  obtain ⟨hfin, hvalue⟩ :=
    sub_of_value ha.isTime hb.isTime (by rw [ha.value, hb.value, Nat.cast_le]; exact hle)
    hc.isFinite (by rw [hc.value, ha.value, hb.value, Nat.cast_sub hle])
  exact ⟨hfin, hvalue.trans hc.value⟩

theorem mul (ha : Whole a i) (hb : Whole b j) (h : i * j < 2 ^ 53) : Whole (a * b) (i * j) := by
  have hproduct := unpack_mul a b
  have hzero (hu : ∃ s, (a * b).unpack = .zero s) (hij : (i : ℚ) * j = 0) : Whole (a * b) (i * j) := by
    obtain ⟨s, hu⟩ := hu
    refine ⟨isFinite_of_zero hu, (value_of_zero hu).trans ?_⟩
    rw [Nat.cast_mul, hij]
  rw [← ha.value, ← hb.value] at hzero
  rcases unpack_of_isTime ha.isTime with ⟨s, hua⟩ | ⟨m, e, hm, hua⟩ <;>
    rcases unpack_of_isTime hb.isTime with ⟨t, hub⟩ | ⟨n, f, hn, hub⟩
  · rw [hua, hub] at hproduct
    exact hzero ⟨_, unpack_of_written_zero hproduct⟩ (by rw [value_of_zero hua, zero_mul])
  · rw [hua, hub] at hproduct
    exact hzero ⟨_, unpack_of_written_zero hproduct⟩ (by rw [value_of_zero hua, zero_mul])
  · rw [hua, hub] at hproduct
    exact hzero ⟨_, unpack_of_written_zero hproduct⟩ (by rw [value_of_zero hub, mul_zero])
  · have hpos : 0 < a.value := by
      rw [value_of_positive hua]
      positivity
    have hpos' : 0 < b.value := by
      rw [value_of_positive hub]
      positivity
    obtain ⟨c, hc⟩ := exists_whole h
    have hexact : c.value = a.value * b.value := by rw [hc.value, ha.value, hb.value, Nat.cast_mul]
    obtain ⟨hfin, hvalue⟩ := (rounded_mul ha.isFinite hpos hb.isFinite hpos').exact hc.isFinite
      (by rw [hexact]; positivity) hexact
    exact ⟨hfin, hvalue.trans hc.value⟩

theorem div (ha : Whole a (k * j)) (hb : Whole b j) (hk : 0 < k) (hj : 0 < j) (h : k < 2 ^ 53) :
    Whole (a / b) k := by
  obtain ⟨c, hc⟩ := exists_whole h
  have hpos := ha.value_pos (Nat.mul_pos hk hj)
  have hpos' := hb.value_pos hj
  have hexact : c.value = a.value / b.value := by
    rw [eq_div_iff hpos'.ne', hc.value, ha.value, hb.value, Nat.cast_mul]
  obtain ⟨hfin, hvalue⟩ := (rounded_div ha.isFinite hpos hb.isFinite hpos').exact hc.isFinite
    (by rw [hexact]; positivity) hexact
  exact ⟨hfin, hvalue.trans hc.value⟩

end Whole

theorem whole_toFloat {n : Nat} (h : n < 2 ^ 53) : Whole n.toUInt64.toFloat n := by
  obtain ⟨c, hc⟩ := exists_whole h
  rcases Nat.eq_zero_or_pos n with rfl | hpos
  · exact whole_of_toInt? (by decide)
  · have hcpos := hc.value_pos hpos
    have hn : n.toUInt64.toNat = n := by
      rw [Nat.toUInt64_eq, UInt64.toNat_ofNat']
      omega
    have hpack : Number.unpack n.toUInt64.toFloat =
        UnpackedFloat.unpack .binary64 (UnpackedFloat.pack .binary64
          (UnpackedFloat.normalize .binary64 n.toUInt64.toNat 0 .positive)) := rfl
    have hgt : compare (n : Int) 0 = .gt := compare_gt_iff_gt.2 (by omega)
    rw [hn, UnpackedFloat.normalize, hgt] at hpack
    have hu := unpack_of_round (k := n) (e := 0) hc.isFinite hcpos
      (by rw [zpow_zero, mul_one, hc.value]) hpack
    exact ⟨by rw [isFinite_eq, hu, ← isFinite_eq]; exact hc.isFinite, (value_eq_of_unpack hu).trans hc.value⟩

/-- A count that can be written is written exactly. -/
theorem whole_ofNat {n : Nat} (h : n < 2 ^ 53) : Whole (Float.ofNat n) n := by
  have hone : Whole Float.exactlyRepresentablePowersOfTen[0] 1 := whole_of_toInt? (by decide)
  have hsplit : Float.ofNat n = n.toUInt64.toFloat * Float.exactlyRepresentablePowersOfTen[0] := by
    rw [Float.ofNat]
    change Float.ofScientific n false 0 = _
    rw [Float.ofScientific, dif_pos ⟨h, by decide⟩]
    rfl
  have hmul := (whole_toFloat h).mul hone (by omega)
  rwa [mul_one, ← hsplit] at hmul

end Number

end RadioOccupancy
