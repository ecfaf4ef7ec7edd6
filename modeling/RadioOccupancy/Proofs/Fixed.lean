import RadioOccupancy.Decimal.Fixed
import RadioOccupancy.Proofs.Negation
import RadioOccupancy.Proofs.Reading

/-!
A number that is written with a set count of places is rounded to these places.

    fixed        ::=  "-"? digits "." digits

Its text is read as its magnitude in units of the last place, a half rounded up, with its sign
(`Number.read_fixed`). Like all texts of finite numbers it ends in a digit (`Number.endsInDigit_fixed`).
-/

namespace RadioOccupancy

namespace Decimal

variable {n places : Nat}

/-! ### Texts with a set count of places -/

theorem tenTo_eq (n : Nat) : tenTo n = 10 ^ n :=
  rfl

/-- The zeros that a fraction is filled up with. -/
def padding (places n : Nat) : List Char :=
  List.replicate (places - (digitsOf n).length) '0'

theorem toList_fixedText (places n : Nat) : (fixedText places n).toList =
    digitsOf (n / 10 ^ places) ++
      '.' :: (padding places (n % 10 ^ places) ++ digitsOf (n % 10 ^ places)) := by
  have hlength : (toString (n % 10 ^ places)).length = (digitsOf (n % 10 ^ places)).length :=
    String.length_toList.symm
  rw [fixedText, tenTo_eq, hlength, String.toList_append, String.toList_append, String.toList_append,
    toList_zeros]
  simp [digitsOf, padding]

/-- A fraction has as many digits as places. -/
theorem length_fraction (hpos : 0 < places) (n : Nat) :
    (padding places (n % 10 ^ places) ++ digitsOf (n % 10 ^ places)).length = places := by
  have hle : (digitsOf (n % 10 ^ places)).length ≤ places := by
    rw [digitsOf_eq, Nat.length_toDigits_le_iff (by norm_num) hpos]
    exact Nat.mod_lt n (by positivity)
  rw [List.length_append, padding, List.length_replicate]
  omega

theorem ofDigits_append (cs ds : List Char) :
    ofDigits (cs ++ ds) = ofDigits cs * 10 ^ ds.length + ofDigits ds := by
  rw [ofDigits, Nat.ofDigitChars_append, Nat.ofDigitChars_eq_ofDigitChars_zero, mul_comm]
  rfl

theorem notMem_fraction {c : Char} (hc : c.isDigit = false) (places n : Nat) :
    c ∉ padding places n ++ digitsOf n := by
  rw [List.mem_append, not_or]
  refine ⟨fun hmem => ?_, notMem_digitsOf hc n⟩
  rw [List.eq_of_mem_replicate hmem] at hc
  cases hc

/-- A count of last places is read as it was written. -/
theorem read_fixedText (hpos : 0 < places) (n : Nat) :
    read (fixedText places n).toList = n / 10 ^ places := by
  have hpoint : '.' ∉ digitsOf (n / 10 ^ places) := notMem_digitsOf rfl _
  have he : 'e' ∉ (fixedText places n).toList := by
    rw [toList_fixedText, List.mem_append, List.mem_cons, not_or, not_or]
    exact ⟨notMem_digitsOf rfl _, by decide, notMem_fraction rfl _ _⟩
  have hcount : (n / 10 ^ places) * 10 ^ places + n % 10 ^ places = n := Nat.div_add_mod' n _
  rw [read_of_notMem he, toList_fixedText, readPoint_append hpoint, ofDigits_append, ofDigits_digitsOf,
    padding, ofDigits_zeros_append, ofDigits_digitsOf, ← padding, length_fraction hpos, hcount, zpow_neg,
    zpow_natCast, ← div_eq_mul_inv]

theorem head_fixedText (places n : Nat) : ∃ c rest, (fixedText places n).toList = c :: rest ∧ c.isDigit := by
  obtain ⟨c, rest, hcons⟩ := List.exists_cons_of_length_pos (length_digitsOf_pos (n / 10 ^ places))
  have hc : c.isDigit := isDigit_of_mem (hcons ▸ List.mem_cons_self)
  exact ⟨c, _, by rw [toList_fixedText, hcons, List.cons_append], hc⟩

/-- The nearest count of last places, a half rounded up. -/
theorem units_eq (places m : Nat) (q : Int) :
    units places m q = ⌊(m : ℚ) * 2 ^ q * 10 ^ places + 1 / 2⌋₊ := by
  have hpow := zpow_mul_toNat (two_ne_zero (α := ℚ)) q
  have hden : (0 : ℚ) < 2 ^ (-q).toNat := by positivity
  have hfrac : (m : ℚ) * 2 ^ q * 10 ^ places + 1 / 2 =
      (2 * (m * 10 ^ places * 2 ^ q.toNat) + 2 ^ (-q).toNat : Nat) / (2 * 2 ^ (-q).toNat : Nat) := by
    push_cast
    rw [← hpow]
    field_simp
  rw [hfrac, Nat.floor_div_eq_div]
  rfl

/-! ### The end of a text -/

/-- The last character is a digit. -/
def EndsInDigit (cs : List Char) : Prop :=
  ∃ init c, cs = init ++ [c] ∧ c.isDigit

theorem endsInDigit_of_forall {cs : List Char} (hne : cs ≠ []) (h : ∀ c ∈ cs, c.isDigit) : EndsInDigit cs :=
  ⟨cs.dropLast, cs.getLast hne, (List.dropLast_append_getLast hne).symm, h _ (List.getLast_mem hne)⟩

theorem EndsInDigit.append_left {ds : List Char} (h : EndsInDigit ds) (cs : List Char) :
    EndsInDigit (cs ++ ds) := by
  obtain ⟨init, c, rfl, hc⟩ := h
  exact ⟨cs ++ init, c, (List.append_assoc ..).symm, hc⟩

theorem endsInDigit_digitsOf (n : Nat) : EndsInDigit (digitsOf n) :=
  endsInDigit_of_forall (List.ne_nil_of_length_pos (length_digitsOf_pos n)) fun _ => isDigit_of_mem

theorem endsInDigit_fixedText (places n : Nat) : EndsInDigit (fixedText places n).toList := by
  rw [toList_fixedText]
  exact (((endsInDigit_digitsOf _).append_left _).append_left ['.']).append_left _

theorem Layout.endsInDigit {d : Decimal} {cs : List Char} (h : Layout d cs) : EndsInDigit cs := by
  cases h with
  | whole k h =>
    have hpos := length_digitsOf_pos d.digits
    refine endsInDigit_of_forall
      (List.append_ne_nil_of_left_ne_nil (List.ne_nil_of_length_pos hpos) _) fun c hc => ?_
    rw [List.mem_append] at hc
    rcases hc with hc | hc
    · exact isDigit_of_mem hc
    · rw [List.eq_of_mem_replicate hc]
      rfl
  | inside k hpos h hneg =>
    have hdrop : (digitsOf d.digits).drop k ≠ [] := by
      rw [Ne, List.drop_eq_nil_iff]
      omega
    exact ((endsInDigit_of_forall hdrop fun _ hc =>
      isDigit_of_mem (List.mem_of_mem_drop hc)).append_left ['.']).append_left _
  | fraction k h => exact ((endsInDigit_digitsOf _).append_left _).append_left ['0', '.']
  | power power h =>
    rw [toList_scientific]
    exact ((endsInDigit_digitsOf _).append_left ['e', _]).append_left _

end Decimal

namespace Number
open Float.Model Float.Model.UnpackedFloat

variable {x : Number} {places : Nat}

/-! ### Numbers -/

theorem endsInDigit_text (hx : x.isFinite) : Decimal.EndsInDigit x.text.toList := by
  obtain ⟨s, hu⟩ | ⟨s, m, q, hm, hu⟩ := unpack_of_isFinite hx
  · have hdigit : "0".toList = [] ++ ['0'] := by decide
    rw [text, hu]
    exact ⟨[], '0', hdigit, rfl⟩
  · rw [text, hu]
    have hend := (Decimal.layout_text (Decimal.shortest m q)).endsInDigit
    cases s with
    | positive => exact hend
    | negative =>
      dsimp only
      rw [String.toList_append]
      exact hend.append_left _

theorem endsInDigit_fixed (hx : x.isFinite) (places : Nat) : Decimal.EndsInDigit (x.fixed places).toList := by
  obtain ⟨s, hu⟩ | ⟨s, m, q, hm, hu⟩ := unpack_of_isFinite hx
  · rw [fixed, hu]
    exact Decimal.endsInDigit_fixedText places 0
  · rw [fixed, hu]
    have hend := Decimal.endsInDigit_fixedText places (Decimal.units places m q)
    dsimp only
    split
    · exact endsInDigit_text hx
    · cases s with
      | positive => exact hend
      | negative =>
        dsimp only
        rw [String.toList_append]
        exact hend.append_left _

/-- The magnitude of a number in units of the last place, a half rounded up. -/
def lastPlaces (places : Nat) (x : Number) : Nat :=
  ⌊|x.value| * 10 ^ places + 1 / 2⌋₊

/-- A number below `1e21` is written as the nearest count of last places, with its sign. -/
theorem read_fixed (hpos : 0 < places) (hx : x.isFinite) (hsmall : |x.value| < 10 ^ 21) :
    read (x.fixed places).toList = .finite (SignType.sign x.value * (lastPlaces places x / 10 ^ places)) := by
  obtain ⟨s, hu⟩ | ⟨s, m, q, hm, hu⟩ := unpack_of_isFinite hx
  · obtain ⟨c, rest, hcons, hc⟩ := Decimal.head_fixedText places 0
    rw [fixed, hu]
    dsimp only
    rw [value_of_zero hu, hcons, read_of_isDigit hc, ← hcons, Decimal.read_fixedText hpos, sign_zero]
    simp
  · have hmag : (0 : ℚ) < m * 2 ^ q := by positivity
    have hpart : ¬tenTo 21 ≤ wholePart m q := by
      rw [abs_value hu] at hsmall
      rw [not_le, wholePart_eq_floor, Nat.floor_lt hmag.le, Decimal.tenTo_eq]
      exact_mod_cast hsmall
    obtain ⟨c, rest, hcons, hc⟩ := Decimal.head_fixedText places (Decimal.units places m q)
    have hread := Decimal.read_fixedText hpos (Decimal.units places m q)
    rw [fixed, hu, lastPlaces, abs_value hu, ← Decimal.units_eq]
    dsimp only
    rw [if_neg hpart]
    cases s with
    | positive =>
      rw [value_of_positive hu, sign_pos hmag]
      dsimp only
      rw [hcons, read_of_isDigit hc, ← hcons, hread, SignType.coe_one, one_mul]
    | negative =>
      have hminus :
          ("-" ++ Decimal.fixedText places (Decimal.units places m q)).toList = '-' :: c :: rest := by
        rw [String.toList_append, hcons]
        rfl
      rw [value_of_negative hu, sign_neg (neg_neg_of_pos hmag)]
      dsimp only
      rw [hminus, read_neg_of_isDigit hc, ← hcons, hread, SignType.coe_neg_one, neg_one_mul]

/-- Without its sign it is the count alone. -/
theorem abs_read_fixed (hpos : 0 < places) (hx : x.isFinite) (hsmall : |x.value| < 10 ^ 21) :
    ∃ p, read (x.fixed places).toList = .finite p ∧ |p| = lastPlaces places x / 10 ^ places := by
  have hcount : (0 : ℚ) ≤ lastPlaces places x / 10 ^ places := by positivity
  refine ⟨_, read_fixed hpos hx hsmall, ?_⟩
  rw [abs_mul, abs_of_nonneg hcount]
  rcases lt_trichotomy x.value 0 with hneg | hzero | hpos'
  · rw [sign_neg hneg, SignType.coe_neg_one, abs_neg, abs_one, one_mul]
  · have hnone : lastPlaces places x = 0 := by
      rw [lastPlaces, hzero, abs_zero, zero_mul, zero_add, Nat.floor_eq_zero]
      norm_num
    rw [hnone, Nat.cast_zero, zero_div, mul_zero]
  · rw [sign_pos hpos', SignType.coe_one, abs_one, one_mul]

end Number

end RadioOccupancy
