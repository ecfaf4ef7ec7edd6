import RadioOccupancy.Proofs.Exact
import RadioOccupancy.Spectrum.Threshold

/-!
A finite threshold has a step at every positive resolution (`step_defined`).

The step may be infinite, where the quotient leaves the finite range, but it is not undefined: a finite number
is divided by one that is not zero, and arithmetic leaves the defined numbers in a few places only. Rounding
and packing are not among them (`roundWithAccuracy_defined`, `unpack_pack_defined`).
-/

namespace RadioOccupancy

namespace Number
open Float.Model Float.Model.UnpackedFloat

/-! ### Arithmetic with a defined result -/

theorem unpack_packComponents_defined (s : Sign) {e : BitVec 11} {m : BitVec 52}
    (h : e = -1#11 → m = 0#52) :
    UnpackedFloat.unpack .binary64 (packComponents .binary64 s e m) ≠ .notANumber := by
  rw [UnpackedFloat.unpack]
  simp only [unpackMantissa_packComponents, unpackExponent_packComponents]
  split
  · next he =>
    rw [if_pos (h he)]
    rintro ⟨⟩
  · split
    · split <;> rintro ⟨⟩
    · rintro ⟨⟩

/-- What was defined is so after packing. -/
theorem unpack_pack_defined {u : UnpackedFloat} (h : u ≠ .notANumber) :
    UnpackedFloat.unpack .binary64 (UnpackedFloat.pack .binary64 u) ≠ .notANumber := by
  cases u with
  | notANumber => exact absurd rfl h
  | infinity s => exact unpack_packComponents_defined s fun _ => rfl
  | zero s => exact unpack_packComponents_defined s fun _ => rfl
  | finite s m e hm =>
    rw [UnpackedFloat.pack]
    dsimp only
    rw [biasedExponent_eq]
    split
    · exact unpack_packComponents_defined s fun _ => rfl
    · next hsmall =>
      change ¬2048 ≤ (e + 1075).toNat + 1 at hsmall
      split
      · -- the exponent field has a bit that is not set
        refine unpack_packComponents_defined s fun htop => ?_
        have htop := congrArg BitVec.toNat htop
        change (BitVec.ofNat 11 _).toNat = 2047 at htop
        rw [BitVec.toNat_ofNat] at htop
        omega
      · exact unpack_packComponents_defined s fun htop => absurd htop (by decide)

theorem roundWithAccuracy_defined (s : Sign) (m : Nat) (e : Int) (accuracy : Accuracy) :
    roundWithAccuracy .binary64 s m e accuracy ≠ .notANumber := by
  rw [roundWithAccuracy]
  dsimp only
  split <;> rintro ⟨⟩

theorem isNaN_of_pack {x : Number} {u : UnpackedFloat} (h : u ≠ .notANumber)
    (hx : x.unpack = UnpackedFloat.unpack .binary64 (UnpackedFloat.pack .binary64 u)) : x.isNaN = false := by
  rw [isNaN_eq, ← Bool.not_eq_true, isNaN_iff, hx]
  exact unpack_pack_defined h

/-- A finite number can be divided by one that is not zero. -/
theorem div_defined {a b : Number} (ha : a.isFinite) (hb : b.isFinite) (h : b.value ≠ 0) :
    (a / b).isNaN = false := by
  refine isNaN_of_pack ?_ (unpack_div a b)
  rw [isFinite_eq] at ha hb
  cases hub : b.unpack with
  | notANumber | infinity =>
    rw [hub] at hb
    cases hb
  | zero t => exact absurd (value_of_zero hub) h
  | finite t n f hn =>
    cases hua : a.unpack with
    | notANumber | infinity =>
      rw [hua] at ha
      cases ha
    | zero s => rintro ⟨⟩
    | finite s m e hm => exact roundWithAccuracy_defined _ _ _ _

/-- A defined number can be multiplied by a finite one that is not zero. -/
theorem mul_defined {a b : Number} (ha : a.isNaN = false) {s : Sign} {m : Nat} {e : Int} {h : 0 < m}
    (hb : b.unpack = .finite s m e h) : (a * b).isNaN = false := by
  have hmul : (a * b).unpack = UnpackedFloat.unpack .binary64 (UnpackedFloat.pack .binary64
      (UnpackedFloat.mul .binary64 a.unpack b.unpack)) := rfl
  refine isNaN_of_pack ?_ hmul
  rw [hb]
  cases hua : a.unpack with
  | notANumber =>
    rw [isNaN_eq, hua] at ha
    cases ha
  | infinity s => rintro ⟨⟩
  | zero s => rintro ⟨⟩
  | finite s m e hm => exact roundWithAccuracy_defined _ _ _ _

theorem neg_defined {a : Number} (ha : a.isNaN = false) : (Float.neg a).isNaN = false := by
  have hneg : Number.unpack (Float.neg a) =
      UnpackedFloat.unpack .binary64 (UnpackedFloat.pack .binary64 a.unpack.neg) := rfl
  refine isNaN_of_pack ?_ hneg
  cases hua : a.unpack with
  | notANumber =>
    rw [isNaN_eq, hua] at ha
    cases ha
  | infinity s | zero s | finite s m e hm => rintro ⟨⟩

theorem toFloat_defined (n : UInt64) : n.toFloat.isNaN = false := by
  have hof : Number.unpack n.toFloat = UnpackedFloat.unpack .binary64 (UnpackedFloat.pack .binary64
      (UnpackedFloat.normalize .binary64 n.toNat 0 .positive)) := rfl
  refine isNaN_of_pack ?_ hof
  unfold UnpackedFloat.normalize
  split
  · exact roundWithAccuracy_defined _ _ _ _
  · rintro ⟨⟩
  · exact roundWithAccuracy_defined _ _ _ _

theorem ofScientific_defined (m : Nat) (e : Int) :
    UnpackedFloat.ofScientific .binary64 m e ≠ .notANumber := by
  rw [UnpackedFloat.ofScientific]
  split
  · rintro ⟨⟩
  · split
    · rintro ⟨⟩
    · split
      · rintro ⟨⟩
      · split
        · exact roundWithAccuracy_defined _ _ _ _
        · exact roundWithAccuracy_defined _ _ _ _

theorem ofNat_defined (n : Nat) : (Float.ofNat n).isNaN = false := by
  rw [Float.ofNat]
  change (Float.ofScientific n false 0).isNaN = false
  rw [Float.ofScientific]
  split
  · have hone : Number.unpack Float.exactlyRepresentablePowersOfTen[0] =
        .finite .positive (2 ^ 52) (-52) (by decide) := rfl
    exact mul_defined (toFloat_defined _) hone
  · exact isNaN_of_pack (ofScientific_defined n 0) rfl

theorem ofInt_defined (n : Int) : (Float.ofInt n).isNaN = false := by
  cases n with
  | ofNat n => exact ofNat_defined n
  | negSucc n => exact neg_defined (ofNat_defined _)

theorem roundHalfUp_defined {x : Number} (h : x.isNaN = false) : x.roundHalfUp.isNaN = false := by
  rw [roundHalfUp]
  split
  · rfl
  · split
    · exact h
    · exact ofInt_defined _
  · exact h
  · exact h

end Number

/-- A finite threshold has a step at a positive resolution. -/
theorem Threshold.step_defined {dbm resolution : Number} (hdbm : dbm.isFinite)
    (hres : resolution.isFinite) (hpos : 0 < resolution) :
    ∃ s, step dbm resolution = .ok s ∧ s.isNaN = false := by
  have hvalue : resolution.value ≠ 0 := ((Number.lt_iff Number.isFinite_zero hres).1 hpos).ne'
  refine ⟨_, ?_, Number.roundHalfUp_defined (Number.div_defined hdbm hres hvalue)⟩
  rw [step, hdbm, hres, decide_eq_false (Number.not_le_of_lt hpos)]
  rfl

end RadioOccupancy
