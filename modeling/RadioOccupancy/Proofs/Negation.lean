import RadioOccupancy.Proofs.Whole

/-!
Numbers below zero are computed with like those above it.

The sign of a number is stored apart from what it is the sign of, so packing and unpacking keep it apart
(`unpack_pack_neg`), and a quotient is divided as if the dividend were positive (`unpack_neg_div`).
-/

namespace RadioOccupancy

namespace Number
open Float.Model Float.Model.UnpackedFloat

variable {x a b : Number}

theorem neg_neg_unpacked (u : UnpackedFloat) : u.neg.neg = u := by
  cases u with
  | notANumber => rfl
  | infinity s | zero s => cases s <;> rfl
  | finite s m e hm => cases s <;> rfl

theorem unpack_packComponents_neg (s : Sign) (e : BitVec 11) (m : BitVec 52) :
    UnpackedFloat.unpack .binary64 (packComponents .binary64 (-s) e m) =
      (UnpackedFloat.unpack .binary64 (packComponents .binary64 s e m)).neg := by
  rw [UnpackedFloat.unpack, UnpackedFloat.unpack]
  simp only [unpackMantissa_packComponents, unpackExponent_packComponents, unpackSign_packComponents]
  split
  · split <;> rfl
  · split
    · split <;> rfl
    · rfl

/-- The sign is packed and unpacked as it is. -/
theorem unpack_pack_neg (u : UnpackedFloat) :
    UnpackedFloat.unpack .binary64 (UnpackedFloat.pack .binary64 u.neg) =
      (UnpackedFloat.unpack .binary64 (UnpackedFloat.pack .binary64 u)).neg := by
  cases u with
  | notANumber => rfl
  | infinity s | zero s => exact unpack_packComponents_neg s _ _
  | finite s m e hm =>
    rw [UnpackedFloat.neg, UnpackedFloat.pack, UnpackedFloat.pack]
    dsimp only
    split
    · exact unpack_packComponents_neg s _ _
    · split <;> exact unpack_packComponents_neg s _ _

/-- What has been unpacked is packed without loss. -/
theorem unpack_pack_unpack (x : Number) :
    UnpackedFloat.unpack .binary64 (UnpackedFloat.pack .binary64 x.unpack) = x.unpack := by
  have hzero : UnpackedFloat.unpack .binary64 (UnpackedFloat.pack .binary64 (.zero .positive)) =
    .zero .positive := rfl
  have hinf : UnpackedFloat.unpack .binary64 (UnpackedFloat.pack .binary64 (.infinity .positive)) =
    .infinity .positive := rfl
  cases hu : x.unpack with
  | notANumber => rfl
  | infinity s =>
    cases s with
    | positive => exact hinf
    | negative => exact (unpack_pack_neg (.infinity .positive)).trans (congrArg UnpackedFloat.neg hinf)
  | zero s =>
    cases s with
    | positive => exact hzero
    | negative => exact (unpack_pack_neg (.zero .positive)).trans (congrArg UnpackedFloat.neg hzero)
  | finite s m e hm =>
    have hpos := unpack_pack_of_le hm (normal_of_unpack hu) (exponent_le_of_unpack hu)
    cases s with
    | positive => exact hpos
    | negative => exact (unpack_pack_neg (.finite .positive m e hm)).trans (congrArg UnpackedFloat.neg hpos)

theorem unpack_neg (x : Number) : (-x).unpack = x.unpack.neg := by
  have hneg : (-x).unpack = UnpackedFloat.unpack .binary64 (UnpackedFloat.pack .binary64 x.unpack.neg) := rfl
  rw [hneg, unpack_pack_neg, unpack_pack_unpack]

theorem isFinite_neg (x : Number) : (-x).isFinite = x.isFinite := by
  rw [isFinite_eq, isFinite_eq, unpack_neg]
  cases x.unpack <;> rfl

theorem value_neg (x : Number) : (-x).value = -x.value := by
  have hneg := unpack_neg x
  cases hu : x.unpack with
  | notANumber | infinity s | zero s =>
    rw [value, value, hneg, hu]
    exact neg_zero.symm
  | finite s m e hm =>
    rw [hu] at hneg
    cases s with
    | positive => rw [value_of_positive hu, value_of_negative hneg]
    | negative => rw [value_of_negative hu, value_of_positive hneg, neg_neg]

theorem unpack_abs (x : Number) : Number.unpack x.abs = x.unpack.abs := by
  have habs : Number.unpack x.abs =
      UnpackedFloat.unpack .binary64 (UnpackedFloat.pack .binary64 x.unpack.abs) := rfl
  have hcases : x.unpack.abs = x.unpack ∨ x.unpack.abs = x.unpack.neg := by
    cases x.unpack with
    | notANumber => exact .inl rfl
    | infinity s | zero s | finite s =>
      cases s with
      | positive => exact .inl rfl
      | negative => exact .inr rfl
  rw [habs]
  obtain h | h := hcases <;> rw [h]
  · exact unpack_pack_unpack x
  · rw [unpack_pack_neg, unpack_pack_unpack]

theorem isFinite_abs (x : Number) : x.abs.isFinite = x.isFinite := by
  rw [isFinite_eq, isFinite_eq, unpack_abs]
  cases x.unpack <;> rfl

theorem value_abs (x : Number) : Number.value x.abs = |x.value| := by
  have habs := unpack_abs x
  cases hu : x.unpack with
  | notANumber | infinity s | zero s =>
    rw [value, value, habs, hu]
    exact abs_zero.symm
  | finite s m e hm =>
    rw [hu] at habs
    rw [value_of_positive habs, abs_value hu]

theorem roundWithAccuracy_neg (s : Sign) (m : Nat) (e : Int) (accuracy : Accuracy) :
    roundWithAccuracy .binary64 (-s) m e accuracy = (roundWithAccuracy .binary64 s m e accuracy).neg := by
  rw [roundWithAccuracy, roundWithAccuracy]
  dsimp only
  split <;> rfl

theorem neg_div_unpacked (u v : UnpackedFloat) :
    UnpackedFloat.div .binary64 u.neg v = (UnpackedFloat.div .binary64 u v).neg := by
  have hsign : ∀ s t : Sign, -s / t = -(s / t) := by rintro ⟨⟩ ⟨⟩ <;> rfl
  cases u with
  | notANumber => rfl
  | infinity s => cases v <;> first | rfl | exact congrArg UnpackedFloat.infinity (hsign ..)
  | zero s => cases v <;> first | rfl | exact congrArg UnpackedFloat.zero (hsign ..)
  | finite s m e hm =>
    cases v with
    | notANumber => rfl
    | infinity t => exact congrArg UnpackedFloat.zero (hsign s t)
    | zero t => exact congrArg UnpackedFloat.infinity (hsign s t)
    | finite t n f hn =>
      rw [UnpackedFloat.neg, UnpackedFloat.div, UnpackedFloat.div, hsign]
      exact roundWithAccuracy_neg ..

/-- A quotient is divided as if the dividend were positive. -/
theorem unpack_neg_div (a b : Number) : (-a / b).unpack = (a / b).unpack.neg := by
  rw [unpack_div, unpack_div, unpack_neg, neg_div_unpacked, unpack_pack_neg]

theorem isFinite_neg_div (a b : Number) : (-a / b).isFinite = (a / b).isFinite := by
  rw [← isFinite_neg (a / b), isFinite_eq, isFinite_eq, unpack_neg_div, unpack_neg]

theorem value_neg_div (a b : Number) : (-a / b).value = -(a / b).value := by
  rw [← value_neg (a / b), value, value, unpack_neg_div, unpack_neg]

/-- A whole number of either sign is written exactly. -/
theorem value_ofInt {z : Int} (h : |z| < 2 ^ 53) :
    (Float.ofInt z).isFinite ∧ Number.value (Float.ofInt z) = z := by
  cases z with
  | ofNat n =>
    rw [Int.ofNat_eq_natCast, Nat.abs_cast] at h
    have hn := whole_ofNat (n := n) (by exact_mod_cast h)
    exact ⟨hn.isFinite, hn.value⟩
  | negSucc n =>
    rw [Int.negSucc_eq, abs_neg] at h
    have hn := whole_ofNat (n := n + 1) (by exact_mod_cast (le_abs_self _).trans_lt h)
    refine ⟨(isFinite_neg _).trans hn.isFinite, (value_neg _).trans ?_⟩
    rw [hn.value, Int.cast_negSucc]

end Number

end RadioOccupancy
