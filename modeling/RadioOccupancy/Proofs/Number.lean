import RadioOccupancy.Number
import Mathlib.Algebra.Order.Field.Power
import Mathlib.Data.Rat.Cast.Order
import Mathlib.Tactic.Linarith
import Mathlib.Tactic.NormNum
import Mathlib.Tactic.Positivity
import Mathlib.Tactic.Ring

/-!
A finite number stands for a rational one, and finite numbers are compared as what they stand for.

The comparison of two unpacked numbers looks at the exponents first and at the significands only
where the exponents agree. It is the order of the values because a significand fills all its bits
unless the exponent is the least one: `Normal` is that invariant, `compare_magnitude` is what it
buys, and `compare_unpack` extends it to all signs and to zero. What other modules use is the
outcome: `lt_iff`, `le_iff`, `maximum_eq`, `minimum_eq` for finite numbers, `not_le_of_lt` and
`same_iff_key` for all numbers.
-/

namespace RadioOccupancy

namespace Number
open Float.Model Float.Model.UnpackedFloat

/-- The rational number that a finite number stands for. Infinite and undefined numbers get `0`. -/
def value (x : Number) : ℚ :=
  match x.unpack with
  | .finite s m q _ => s.apply m * 2 ^ q
  | _ => 0

/-! ### What the questions asked of numbers come to on unpacked numbers -/

theorem isFinite_eq (x : Number) : x.isFinite = x.unpack.isFinite := rfl

theorem isNaN_eq (x : Number) : x.isNaN = x.unpack.isNaN := rfl

theorem lt_iff_compare (a b : Number) : a < b ↔ a.unpack.compare b.unpack = some .lt := by
  change decide (a.toModel < b.toModel) = true ↔ _
  rw [decide_eq_true_iff]
  change ((a.unpack.compare b.unpack) == some .lt) = true ↔ _
  exact beq_iff_eq

theorem le_iff_compare (a b : Number) :
    a ≤ b ↔ (a.unpack.compare b.unpack).any (·.isLE) = true := by
  change decide (a.toModel ≤ b.toModel) = true ↔ _
  rw [decide_eq_true_iff]
  rfl

theorem beq_iff_compare (a b : Number) : (a == b) = true ↔ a.unpack.compare b.unpack = some .eq := by
  change ((a.unpack.compare b.unpack) == some .eq) = true ↔ _
  exact beq_iff_eq

/-! ### The order of finite numbers is the order of their values -/

/-- The significand is below its bound and fills all its bits, unless the exponent is the least. -/
structure Normal (m : Nat) (e : Int) : Prop where
  lt : m < 2 ^ 53
  least : -1074 ≤ e
  full : 2 ^ 52 ≤ m ∨ e = -1074

/-- Unpacking yields normal significands and exponents. -/
theorem normal_of_unpack {x : Number} {s : Sign} {m : Nat} {e : Int} {h : 0 < m}
    (hx : x.unpack = .finite s m e h) : Normal m e := by
  have hbias : ((Format.binary64.exponentBias : Nat) : Int) = 1023 := rfl
  have hm := (@unpackMantissa Format.binary64 x.toBits.toBitVec).isLt
  change _ < 2 ^ 52 at hm
  rcases ite_eq_iff.1 hx with ⟨-, hx⟩ | ⟨-, hx⟩
  · rcases ite_eq_iff.1 hx with ⟨-, ⟨⟩⟩ | ⟨-, ⟨⟩⟩
  rcases ite_eq_iff.1 hx with ⟨hzero, hx⟩ | ⟨hnz, hx⟩
  · rcases dite_eq_iff.1 hx with ⟨_, ⟨⟩⟩ | ⟨_, hx⟩
    have he : (@unpackExponent Format.binary64 x.toBits.toBitVec).toNat = 0 := by
      rw [hzero]
      rfl
    obtain ⟨-, rfl, rfl⟩ := UnpackedFloat.finite.inj hx
    rw [he, hbias]
    exact ⟨by omega, by norm_num, Or.inr (by norm_num)⟩
  · have he : (@unpackExponent Format.binary64 x.toBits.toBitVec).toNat ≠ 0 :=
      fun h0 => hnz (BitVec.eq_of_toNat_eq h0)
    have happ : (1#1 ++ @unpackMantissa Format.binary64 x.toBits.toBitVec).toNat =
        2 ^ 52 + (@unpackMantissa Format.binary64 x.toBits.toBitVec).toNat := by
      rw [BitVec.toNat_append, ← Nat.shiftLeft_add_eq_or_of_lt hm]
      rfl
    obtain ⟨-, rfl, rfl⟩ := UnpackedFloat.finite.inj hx
    rw [happ, hbias]
    refine ⟨by omega, ?_, Or.inl (by omega)⟩
    change -1074 ≤ ((@unpackExponent Format.binary64 _).toNat : Int) - (1023 + 52)
    omega

/-- A larger exponent decides, whatever the significands. -/
theorem mul_lt_mul_of_exponent_lt {m₁ m₂ : Nat} {e₁ e₂ : Int} (h₁ : Normal m₁ e₁)
    (h₂ : Normal m₂ e₂) (h : e₁ < e₂) : (m₁ : ℚ) * 2 ^ e₁ < m₂ * 2 ^ e₂ := by
  have hm₁ : (m₁ : ℚ) < 2 ^ 53 := by exact_mod_cast h₁.lt
  have hm₂ : (2 : ℚ) ^ 52 ≤ m₂ := by
    exact_mod_cast h₂.full.resolve_right (by have := h₁.least; omega)
  have hpos : (0 : ℚ) < 2 ^ e₁ := by positivity
  calc (m₁ : ℚ) * 2 ^ e₁ < 2 ^ 53 * 2 ^ e₁ := by gcongr
    _ = 2 ^ 52 * 2 ^ (e₁ + 1) := by rw [zpow_add_one₀ (by norm_num)]; ring
    _ ≤ m₂ * 2 ^ e₂ := by
      gcongr
      · norm_num
      · omega

theorem compare_magnitude {m₁ m₂ : Nat} {e₁ e₂ : Int} (h₁ : Normal m₁ e₁) (h₂ : Normal m₂ e₂) :
    (compare e₁ e₂).then (compare m₁ m₂) = compare ((m₁ : ℚ) * 2 ^ e₁) (m₂ * 2 ^ e₂) := by
  rcases lt_trichotomy e₁ e₂ with h | rfl | h
  · rw [compare_lt_iff_lt.2 h, compare_lt_iff_lt.2 (mul_lt_mul_of_exponent_lt h₁ h₂ h)]
    rfl
  · have hpos : (0 : ℚ) < 2 ^ e₁ := by positivity
    rw [compare_eq_iff_eq.2 rfl]
    change compare m₁ m₂ = _
    rcases lt_trichotomy m₁ m₂ with hm | rfl | hm
    · have : (m₁ : ℚ) * 2 ^ e₁ < m₂ * 2 ^ e₁ := by gcongr
      rw [compare_lt_iff_lt.2 hm, compare_lt_iff_lt.2 this]
    · rw [compare_eq_iff_eq.2 rfl, compare_eq_iff_eq.2 rfl]
    · have : (m₂ : ℚ) * 2 ^ e₁ < m₁ * 2 ^ e₁ := by gcongr
      rw [compare_gt_iff_gt.2 hm, compare_gt_iff_gt.2 this]
  · rw [compare_gt_iff_gt.2 h, compare_gt_iff_gt.2 (mul_lt_mul_of_exponent_lt h₂ h₁ h)]
    rfl

theorem compare_neg_neg (x y : ℚ) : compare (-x) (-y) = (compare x y).swap := by
  rcases lt_trichotomy x y with h | rfl | h
  · rw [compare_gt_iff_gt.2 (neg_lt_neg h), compare_lt_iff_lt.2 h]
    rfl
  · rw [compare_eq_iff_eq.2 rfl, compare_eq_iff_eq.2 rfl]
    rfl
  · rw [compare_lt_iff_lt.2 (neg_lt_neg h), compare_gt_iff_gt.2 h]
    rfl

section Value

variable {x : Number} {s : Sign} {m : Nat} {e : Int} {h : 0 < m}

theorem value_of_zero (hx : x.unpack = .zero s) : x.value = 0 := by
  rw [value, hx]

theorem value_of_positive (hx : x.unpack = .finite .positive m e h) : x.value = m * 2 ^ e := by
  rw [value, hx]
  change (((m : Int)) : ℚ) * 2 ^ e = _
  rw [Int.cast_natCast]

theorem value_of_negative (hx : x.unpack = .finite .negative m e h) : x.value = -(m * 2 ^ e) := by
  rw [value, hx]
  change ((-(m : Int) : Int) : ℚ) * 2 ^ e = _
  rw [Int.cast_neg, Int.cast_natCast, neg_mul]

theorem abs_value (hx : x.unpack = .finite s m e h) : |x.value| = m * 2 ^ e := by
  have hpos : (0 : ℚ) < m * 2 ^ e := by positivity
  cases s with
  | positive => rw [value_of_positive hx, abs_of_pos hpos]
  | negative => rw [value_of_negative hx, abs_neg, abs_of_pos hpos]

/-- A finite number is zero or has a significand. -/
theorem unpack_of_isFinite (hx : x.isFinite) :
    (∃ s, x.unpack = .zero s) ∨ ∃ s m e, ∃ hm : 0 < m, x.unpack = .finite s m e hm := by
  rw [isFinite_eq] at hx
  cases hu : x.unpack with
  | notANumber | infinity s =>
    rw [hu] at hx
    cases hx
  | zero s => exact Or.inl ⟨s, rfl⟩
  | finite s m e hm => exact Or.inr ⟨s, m, e, hm, rfl⟩

end Value

/-- Finite numbers are compared as the rational numbers that they stand for. -/
theorem compare_unpack {a b : Number} (ha : a.isFinite) (hb : b.isFinite) :
    a.unpack.compare b.unpack = some (compare a.value b.value) := by
  rw [isFinite_eq] at ha hb
  have hpos (m : Nat) (e : Int) (h : 0 < m) : (0 : ℚ) < m * 2 ^ e := by positivity
  cases hua : a.unpack with
  | notANumber | infinity =>
    rw [hua] at ha
    cases ha
  | zero s =>
    rw [value_of_zero hua]
    cases hub : b.unpack with
    | notANumber | infinity =>
      rw [hub] at hb
      cases hb
    | zero t =>
      rw [value_of_zero hub, compare_eq_iff_eq.2 rfl]
      rfl
    | finite t n f h =>
      have hn := hpos n f h
      cases t with
      | positive =>
        rw [value_of_positive hub, compare_lt_iff_lt.2 hn]
        rfl
      | negative =>
        rw [value_of_negative hub, compare_gt_iff_gt.2 (neg_lt_zero.2 hn)]
        rfl
  | finite s m e h =>
    have hm := hpos m e h
    cases hub : b.unpack with
    | notANumber | infinity =>
      rw [hub] at hb
      cases hb
    | zero t =>
      rw [value_of_zero hub]
      cases s with
      | positive =>
        rw [value_of_positive hua, compare_gt_iff_gt.2 hm]
        rfl
      | negative =>
        rw [value_of_negative hua, compare_lt_iff_lt.2 (neg_lt_zero.2 hm)]
        rfl
    | finite t n f h' =>
      have hn := hpos n f h'
      have hmag := compare_magnitude (normal_of_unpack hua) (normal_of_unpack hub)
      -- of equal signs the magnitudes decide, of different ones the signs
      cases s <;> cases t
      · rw [value_of_negative hua, value_of_negative hub, compare_neg_neg, ← hmag]
        rfl
      · have : -((m : ℚ) * 2 ^ e) < n * 2 ^ f := by linarith
        rw [value_of_negative hua, value_of_positive hub, compare_lt_iff_lt.2 this]
        rfl
      · have : -((n : ℚ) * 2 ^ f) < m * 2 ^ e := by linarith
        rw [value_of_positive hua, value_of_negative hub, compare_gt_iff_gt.2 this]
        rfl
      · rw [value_of_positive hua, value_of_positive hub, ← hmag]
        rfl

theorem lt_iff {a b : Number} (ha : a.isFinite) (hb : b.isFinite) : a < b ↔ a.value < b.value := by
  rw [lt_iff_compare, compare_unpack ha hb, Option.some.injEq, compare_lt_iff_lt]

theorem le_iff {a b : Number} (ha : a.isFinite) (hb : b.isFinite) : a ≤ b ↔ a.value ≤ b.value := by
  rw [le_iff_compare, compare_unpack ha hb, Option.any_some, ← compare_le_iff_le]
  cases compare a.value b.value <;> simp

/-! ### Times, and the larger and the smaller of two numbers -/

theorem isFinite_zero : (0 : Number).isFinite := rfl

@[simp]
theorem value_zero : (0 : Number).value = 0 := rfl

/-- A time is a finite number that stands for no negative one. -/
theorem isTime_iff {x : Number} : x.isTime ↔ x.isFinite ∧ 0 ≤ x.value := by
  rw [isTime, Bool.and_eq_true, decide_eq_true_iff]
  refine and_congr_right fun h => ?_
  rw [le_iff isFinite_zero h, value_zero]

theorem isFinite_of_isTime {x : Number} (h : x.isTime) : x.isFinite :=
  (isTime_iff.1 h).1

theorem value_nonneg {x : Number} (h : x.isTime) : 0 ≤ x.value :=
  (isTime_iff.1 h).2

theorem isTime_zero : (0 : Number).isTime :=
  isTime_iff.2 ⟨isFinite_zero, le_of_eq value_zero.symm⟩

theorem isNaN_iff (u : UnpackedFloat) : u.isNaN = true ↔ u = .notANumber := by
  cases u with
  | notANumber => exact iff_of_true rfl rfl
  | _ => exact iff_of_false Bool.false_ne_true (by rintro ⟨⟩)

theorem not_isNaN {x : Number} (h : x.isFinite) : x.isNaN = false := by
  rw [isNaN_eq, ← Bool.not_eq_true, isNaN_iff]
  intro hu
  rw [isFinite_eq, hu] at h
  cases h

/-- The larger of two finite numbers is one of them, and not below the other. -/
theorem maximum_eq {a b : Number} (ha : a.isFinite) (hb : b.isFinite) :
    a.maximum b = a ∧ b.value ≤ a.value ∨ a.maximum b = b ∧ a.value ≤ b.value := by
  rw [maximum, not_isNaN ha, not_isNaN hb]
  simp only [Bool.or_false, Bool.false_eq_true, if_false, lt_iff ha hb, lt_iff hb ha]
  split
  · next h => exact Or.inr ⟨rfl, le_of_lt h⟩
  · next h =>
    rw [not_lt] at h
    split
    · exact Or.inl ⟨rfl, h⟩
    · next h' =>
      rw [not_lt] at h'
      split
      · exact Or.inr ⟨rfl, h'⟩
      · exact Or.inl ⟨rfl, h⟩

/-- The smaller of two finite numbers is one of them, and not above the other. -/
theorem minimum_eq {a b : Number} (ha : a.isFinite) (hb : b.isFinite) :
    a.minimum b = a ∧ a.value ≤ b.value ∨ a.minimum b = b ∧ b.value ≤ a.value := by
  rw [minimum, not_isNaN ha, not_isNaN hb]
  simp only [Bool.or_false, Bool.false_eq_true, if_false, lt_iff ha hb, lt_iff hb ha]
  split
  · next h => exact Or.inl ⟨rfl, le_of_lt h⟩
  · next h =>
    rw [not_lt] at h
    split
    · exact Or.inr ⟨rfl, h⟩
    · next h' =>
      rw [not_lt] at h'
      split
      · exact Or.inr ⟨rfl, h⟩
      · exact Or.inl ⟨rfl, h'⟩

/-! ### Facts about all numbers -/

theorem compare_sign_eq (s t : Sign) : compare s t = .eq ↔ s = t := by
  cases s <;> cases t <;> simp <;> rfl

theorem compare_then_swap (m n : Nat) (e f : Int) :
    (compare f e).then (compare n m) = ((compare e f).then (compare m n)).swap := by
  rw [Ordering.swap_then, Int.compare_swap, Nat.compare_swap]

theorem compare_flip (u v : UnpackedFloat) : v.compare u = (u.compare v).map Ordering.swap := by
  rcases u with (_ | _) | _ | _ | ⟨(_ | _), m, e, h⟩ <;>
    rcases v with (_ | _) | _ | _ | ⟨(_ | _), n, f, h'⟩
  all_goals first
    | rfl
    | exact congrArg some (compare_then_swap m n e f)
    | exact congrArg (fun o => some o.swap) (compare_then_swap m n e f)

theorem compare_notANumber (u : UnpackedFloat) : u.compare .notANumber = none := by
  cases u <;> rfl

theorem not_le_of_lt {a b : Number} (h : a < b) : ¬ b ≤ a := by
  rw [lt_iff_compare] at h
  rw [le_iff_compare, compare_flip, h]
  decide

/-- What is below two numbers is below the smaller of them. -/
theorem not_minimum_le {t a b : Number} (ha : t < a) (hb : t < b) : ¬a.minimum b ≤ t := by
  have hnan : ∀ x : Number, t < x → x.isNaN = false := by
    intro x hx
    rw [lt_iff_compare] at hx
    rw [isNaN_eq]
    cases hu : x.unpack with
    | notANumber =>
      rw [hu, compare_notANumber] at hx
      cases hx
    | _ => rfl
  rw [minimum, hnan a ha, hnan b hb, Bool.or_false, if_neg Bool.false_ne_true]
  split_ifs
  all_goals first
    | exact not_le_of_lt ha
    | exact not_le_of_lt hb

/-- What a number is as a key: its exact content, without the sign of a zero. -/
def key (x : Number) : UnpackedFloat :=
  match x.unpack with
  | .zero _ => .zero .positive
  | u => u

theorem compare_finite_eq {s t : Sign} {m n : Nat} {e f : Int} (h : 0 < m) (h' : 0 < n) :
    (UnpackedFloat.finite s m e h).compare (.finite t n f h') = some .eq ↔ s = t ∧ m = n ∧ e = f := by
  cases s <;> cases t
  · change some ((compare e f).then (compare m n)).swap = some .eq ↔ _
    rw [Option.some.injEq, Ordering.swap_eq_eq, Ordering.then_eq_eq, compare_eq_iff_eq,
      compare_eq_iff_eq]
    simp [and_comm]
  · change some Ordering.lt = some .eq ↔ _
    simp
  · change some Ordering.gt = some .eq ↔ _
    simp
  · change some ((compare e f).then (compare m n)) = some .eq ↔ _
    rw [Option.some.injEq, Ordering.then_eq_eq, compare_eq_iff_eq, compare_eq_iff_eq]
    simp [and_comm]

theorem ne_eq_of_beq {o : Option Ordering} (h : (o == some .eq) = false) : o ≠ some .eq := by
  rintro rfl
  cases h

/-- Naming the same key is an equality of contents, and so an equivalence. -/
theorem same_iff_key (a b : Number) : a.same b = true ↔ a.key = b.key := by
  rw [same, Bool.or_eq_true, beq_iff_compare, Bool.and_eq_true, isNaN_eq, isNaN_eq, isNaN_iff, isNaN_iff,
    key, key]
  cases a.unpack with
  | notANumber =>
    rw [or_iff_right (ne_eq_of_beq rfl), and_iff_right rfl]
    cases b.unpack with
    | notANumber => exact iff_of_true rfl rfl
    | _ => exact iff_of_false (by rintro ⟨⟩) (by rintro ⟨⟩)
  | infinity s =>
    rw [or_iff_left (by rintro ⟨⟨⟩, -⟩)]
    cases b.unpack with
    | infinity t =>
      change some (compare s t) = some .eq ↔ UnpackedFloat.infinity s = .infinity t
      rw [Option.some.injEq, compare_sign_eq, UnpackedFloat.infinity.injEq]
    | _ => cases s <;> exact iff_of_false (ne_eq_of_beq rfl) (by rintro ⟨⟩)
  | zero s =>
    rw [or_iff_left (by rintro ⟨⟨⟩, -⟩)]
    cases b.unpack with
    | zero t => exact iff_of_true rfl rfl
    | notANumber => exact iff_of_false (ne_eq_of_beq rfl) (by rintro ⟨⟩)
    | infinity t | finite t => cases t <;> exact iff_of_false (ne_eq_of_beq rfl) (by rintro ⟨⟩)
  | finite s m e h =>
    rw [or_iff_left (by rintro ⟨⟨⟩, -⟩)]
    cases b.unpack with
    | finite t n f h' =>
      change _ ↔ UnpackedFloat.finite s m e h = .finite t n f h'
      rw [compare_finite_eq, UnpackedFloat.finite.injEq]
    | notANumber => exact iff_of_false (ne_eq_of_beq rfl) (by rintro ⟨⟩)
    | infinity t | zero t =>
      cases s <;> cases t <;> exact iff_of_false (ne_eq_of_beq rfl) (by rintro ⟨⟩)

/-- Unless they are undefined, numbers name the same key if they are equal. -/
theorem same_eq_beq {a : Number} (h : a.isNaN = false) (b : Number) : a.same b = (a == b) := by
  rw [same, h, Bool.false_and, Bool.or_false]

theorem same_iff_value {a b : Number} (ha : a.isFinite) (hb : b.isFinite) :
    a.same b ↔ a.value = b.value := by
  rw [same_eq_beq (not_isNaN ha), beq_iff_compare, compare_unpack ha hb, Option.some.injEq,
    compare_eq_iff_eq]

theorem isFinite_of_isInteger {x : Number} (h : x.isInteger) : x.isFinite := by
  rw [isInteger] at h
  rw [isFinite_eq]
  cases hu : x.unpack with
  | zero | finite => rfl
  | infinity | notANumber =>
    rw [hu] at h
    cases h

end Number

end RadioOccupancy
