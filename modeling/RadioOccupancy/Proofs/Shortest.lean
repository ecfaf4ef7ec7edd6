import RadioOccupancy.Decimal.Shortest
import RadioOccupancy.Proofs.Exact

/-!
The shortest digits of a number tell it apart from all others.

Each positive number has an interval of reals that round to it. The digits are chosen inside that interval
(`within_shortest`). The intervals lie in the order of the numbers, and two of them meet in an end at most:

    ───[ m - 1 ](   m   )[ m + 1 ]───        an even significand owns its ends, an odd one does not

So no decimal lies in two of them (`Within.unique`). Between numbers with different exponents the argument is
the same, because the interval of a number with a full significand ends where the next one begins.
-/

namespace RadioOccupancy

namespace Decimal
open Number

/-- What a decimal stands for. -/
def value (d : Decimal) : ℚ :=
  d.digits * 10 ^ d.exponent

/-! ### Scales -/

theorem zpow_mul_toNat {a : ℚ} (ha : a ≠ 0) (n : Int) : a ^ n * a ^ (-n).toNat = a ^ n.toNat := by
  rw [← zpow_natCast, ← zpow_natCast, ← zpow_add₀ ha]
  congr 1
  omega

/-- What a scale multiplies both of its sides by. -/
def scaleUnit (q grid : Int) : ℚ :=
  2 ^ (-q).toNat * 10 ^ (-grid).toNat

theorem scaleUnit_pos (q grid : Int) : 0 < scaleUnit q grid := by
  unfold scaleUnit
  positivity

theorem mul_num (a : Nat) (q grid : Int) :
    ((a * (scale q grid).num : Nat) : ℚ) = a * 2 ^ q * scaleUnit q grid := by
  have h2 := zpow_mul_toNat two_ne_zero q
  change ((a * (2 ^ q.toNat * 10 ^ (-grid).toNat) : Nat) : ℚ) = _
  rw [scaleUnit]
  push_cast
  rw [← h2]
  ring

theorem mul_den (c : Nat) (q grid : Int) :
    ((c * (scale q grid).den : Nat) : ℚ) = c * 10 ^ grid * scaleUnit q grid := by
  have h10 := zpow_mul_toNat (show (10 : ℚ) ≠ 0 by norm_num) grid
  change ((c * (2 ^ (-q).toNat * 10 ^ grid.toNat) : Nat) : ℚ) = _
  rw [scaleUnit]
  push_cast
  rw [← h10]
  ring

/-- Steps of a power of two are compared with steps of a power of ten on the scale between them. -/
theorem num_le_den_iff (a c : Nat) (q grid : Int) :
    a * (scale q grid).num ≤ c * (scale q grid).den ↔ (a : ℚ) * 2 ^ q ≤ c * 10 ^ grid := by
  rw [← mul_le_mul_iff_left₀ (scaleUnit_pos q grid), ← mul_num, ← mul_den, Nat.cast_le]

theorem den_le_num_iff (a c : Nat) (q grid : Int) :
    c * (scale q grid).den ≤ a * (scale q grid).num ↔ (c : ℚ) * 10 ^ grid ≤ a * 2 ^ q := by
  rw [← mul_le_mul_iff_left₀ (scaleUnit_pos q grid), ← mul_num, ← mul_den, Nat.cast_le]

/-! ### The interval of a number -/

/-- The lower end of the interval that rounds to `m * 2 ^ q`. -/
def low (m : Nat) (q : Int) : ℚ :=
  lowerEnd m q * 2 ^ (q - 2)

/-- Its upper end. -/
def high (m : Nat) (q : Int) : ℚ :=
  upperEnd m * 2 ^ (q - 2)

/-- A rational in the interval. The ends belong to it if the significand is even. -/
structure Within (m : Nat) (q : Int) (x : ℚ) : Prop where
  low_le : low m q ≤ x
  le_high : x ≤ high m q
  inside : m % 2 ≠ 0 → low m q < x ∧ x < high m q

theorem Within.of_lt {m : Nat} {q : Int} {x : ℚ} (hlow : low m q < x) (hhigh : x < high m q) :
    Within m q x :=
  ⟨hlow.le, hhigh.le, fun _ => ⟨hlow, hhigh⟩⟩

/-- To read back is to be in the interval. -/
theorem readsBack_iff (m : Nat) (q : Int) (c : Nat) (grid : Int) :
    readsBack m q c grid ↔ Within m q (c * 10 ^ grid) := by
  have hlow := num_le_den_iff (lowerEnd m q) c (q - 2) grid
  have hhigh := den_le_num_iff (upperEnd m) c (q - 2) grid
  have hlow' := (den_le_num_iff (lowerEnd m q) c (q - 2) grid).not
  have hhigh' := (num_le_den_iff (upperEnd m) c (q - 2) grid).not
  rw [not_le, not_le] at hlow' hhigh'
  rw [readsBack]
  split
  · next heven =>
    rw [Bool.and_eq_true, decide_eq_true_iff, decide_eq_true_iff, hlow, hhigh]
    exact ⟨fun h => ⟨h.1, h.2, fun hodd => absurd heven hodd⟩, fun h => ⟨h.low_le, h.le_high⟩⟩
  · next hodd =>
    rw [Bool.and_eq_true, decide_eq_true_iff, decide_eq_true_iff, hlow', hhigh']
    exact ⟨fun h => .of_lt h.1 h.2, fun h => h.inside hodd⟩

theorem lowerEnd_bounds {m : Nat} (h : 0 < m) (q : Int) : 0 < lowerEnd m q ∧ lowerEnd m q < 4 * m := by
  rw [lowerEnd]
  split <;> omega

/-- All of the interval is positive. -/
theorem Within.pos {m : Nat} (h : 0 < m) {q : Int} {x : ℚ} (hx : Within m q x) : 0 < x := by
  have hend : (0 : ℚ) < lowerEnd m q := by exact_mod_cast (lowerEnd_bounds h q).1
  calc 0 < low m q := mul_pos hend (by positivity)
    _ ≤ x := hx.low_le

/-- A number is in its own interval. -/
theorem within_self {m : Nat} (h : 0 < m) (q : Int) : Within m q (m * 2 ^ q) := by
  have hlow : (lowerEnd m q : ℚ) < 4 * m := by exact_mod_cast (lowerEnd_bounds h q).2
  have hhigh : 4 * (m : ℚ) < upperEnd m := by
    rw [upperEnd]
    push_cast
    linarith
  have hquarter : (m : ℚ) * 2 ^ q = 4 * m * 2 ^ (q - 2) := by
    rw [zpow_sub₀ two_ne_zero]
    ring
  rw [hquarter]
  refine .of_lt ?_ ?_
  · unfold low
    gcongr
  · unfold high
    gcongr

/-! ### The digits are chosen inside the interval -/

theorem within_onGrid {m : Nat} {q grid : Int} {d : Decimal} (h : onGrid? m q grid = some d) :
    Within m q d.value := by
  rw [onGrid?] at h
  split at h
  · next hc hc' =>
    obtain rfl := Option.some.inj h
    rw [readsBack_iff] at hc hc'
    rw [value, nearer]
    dsimp only
    split
    · exact hc
    · exact hc'
    · split
      · exact hc
      · exact hc'
  · next hc _ =>
    obtain rfl := Option.some.inj h
    exact (readsBack_iff ..).1 hc
  · next _ hc =>
    obtain rfl := Option.some.inj h
    exact (readsBack_iff ..).1 hc
  · cases h

/-- All the digits stand for the number itself. -/
theorem value_exact (m : Nat) (q : Int) : (exact m q).value = m * 2 ^ q := by
  have h2 := zpow_mul_toNat two_ne_zero q
  have h10 : (10 : ℚ) ^ min q 0 * 10 ^ (-q).toNat = 1 := by
    rw [← zpow_natCast, ← zpow_add₀ (by norm_num)]
    rw [show min q 0 + ((-q).toNat : Int) = 0 by omega, zpow_zero]
  have hsplit : (10 : ℚ) ^ (-q).toNat = 5 ^ (-q).toNat * 2 ^ (-q).toNat := by
    rw [← mul_pow]
    norm_num
  rw [hsplit] at h10
  change ((m * 2 ^ q.toNat * 5 ^ (-q).toNat : Nat) : ℚ) * 10 ^ min q 0 = _
  push_cast
  rw [← h2]
  linear_combination (m : ℚ) * 2 ^ q * h10

/-- Zeros at the end are worth nothing. -/
theorem value_trim (d : Decimal) : d.trim.value = d.value := by
  induction d using trim.induct with
  | case1 d h ih =>
    have hten : ((d.digits / 10 : Nat) : ℚ) * 10 = d.digits := by
      exact_mod_cast Nat.div_mul_cancel (Nat.dvd_of_mod_eq_zero h.2)
    rw [trim, dif_pos h, ih, value, value, zpow_add_one₀ (by norm_num), ← hten]
    ring
  | case2 d h => rw [trim, dif_neg h]

theorem within_shortest {m : Nat} (h : 0 < m) (q : Int) : Within m q (shortest m q).value := by
  rw [shortest]
  rw [value_trim]
  cases hfound : (List.range 17).findSome? fun (i : Nat) => onGrid? m q (leadingExponent m q - i) with
  | none =>
    rw [Option.getD_none, value_exact]
    exact within_self h q
  | some d =>
    obtain ⟨i, -, hi⟩ := List.exists_of_findSome?_eq_some hfound
    exact within_onGrid hi

/-! ### No two intervals overlap -/

section Order

variable {m n : Nat} {q r : Int}

/-- Of two significands at one exponent the lower one's interval ends first. -/
theorem ends_of_lt (h : m < n) (q : Int) :
    upperEnd m ≤ lowerEnd n q ∧ (m % 2 = 0 → n % 2 = 0 → upperEnd m < lowerEnd n q) := by
  rw [upperEnd, lowerEnd]
  split <;> omega

/-- A number with a greater exponent has an interval that begins after the greatest significand. -/
theorem ends_of_exponent_lt (hm : Normal m q) (hn : Normal n r) (h : q < r) :
    upperEnd m ≤ 2 * lowerEnd n r ∧ (m % 2 = 0 → upperEnd m < 2 * lowerEnd n r) := by
  have hlt := hm.lt
  have hleast := hm.least
  have hfull := hn.full.resolve_right (by omega)
  rw [upperEnd, lowerEnd]
  change _ ≤ 2 * (if n = 2 ^ 52 ∧ r ≠ -1074 then 4 * n - 1 else 4 * n - 2) ∧
    (_ → _ < 2 * (if n = 2 ^ 52 ∧ r ≠ -1074 then 4 * n - 1 else 4 * n - 2))
  split <;> omega

theorem exponent_lt_or_of_value_lt (hm : Normal m q) (hn : Normal n r) (h : (m : ℚ) * 2 ^ q < n * 2 ^ r) :
    q < r ∨ q = r ∧ m < n := by
  have hcompare := compare_magnitude hm hn
  rw [compare_lt_iff_lt.2 h, Ordering.then_eq_lt, compare_lt_iff_lt, compare_eq_iff_eq,
    compare_lt_iff_lt] at hcompare
  exact hcompare

/-- The intervals lie in the order of the numbers. If two of them meet, one does not own its ends. -/
theorem high_le_low (hm : Normal m q) (hn : Normal n r) (h : (m : ℚ) * 2 ^ q < n * 2 ^ r) :
    high m q ≤ low n r ∧ (m % 2 = 0 → n % 2 = 0 → high m q < low n r) := by
  have hpos : (0 : ℚ) < 2 ^ (q - 2) := by positivity
  unfold high low
  rcases exponent_lt_or_of_value_lt hm hn h with hlt | ⟨rfl, hlt⟩
  · have hpow : (2 : ℚ) * 2 ^ (q - 2) ≤ 2 ^ (r - 2) := by
      rw [← zpow_one_add₀ two_ne_zero]
      exact zpow_le_zpow_right₀ (by norm_num) (by omega)
    have hnext : (2 * lowerEnd n r : ℚ) * 2 ^ (q - 2) ≤ lowerEnd n r * 2 ^ (r - 2) := by
      rw [mul_comm (2 : ℚ), mul_assoc]
      gcongr
    obtain ⟨hle, hne⟩ := ends_of_exponent_lt hm hn hlt
    refine ⟨le_trans ?_ hnext, fun heven _ => lt_of_lt_of_le ?_ hnext⟩
    · gcongr
      exact_mod_cast hle
    · gcongr
      exact_mod_cast hne heven
  · obtain ⟨hle, hne⟩ := ends_of_lt hlt q
    refine ⟨?_, fun heven heven' => ?_⟩
    · gcongr
    · gcongr
      exact hne heven heven'

theorem lt_of_within (hm : Normal m q) (hn : Normal n r) (h : (m : ℚ) * 2 ^ q < n * 2 ^ r) {x y : ℚ}
    (hx : Within m q x) (hy : Within n r y) : x < y := by
  obtain ⟨hle, hne⟩ := high_le_low hm hn h
  by_cases hodd : m % 2 = 0
  · by_cases hodd' : n % 2 = 0
    · calc x ≤ high m q := hx.le_high
        _ < low n r := hne hodd hodd'
        _ ≤ y := hy.low_le
    · calc x ≤ high m q := hx.le_high
        _ ≤ low n r := hle
        _ < y := (hy.inside hodd').1
  · calc x < high m q := (hx.inside hodd).2
      _ ≤ low n r := hle
      _ ≤ y := hy.low_le

/-- A rational rounds to one number only. -/
theorem Within.unique (hm : Normal m q) (hn : Normal n r) {x : ℚ} (hx : Within m q x) (hy : Within n r x) :
    m = n ∧ q = r := by
  rcases lt_trichotomy ((m : ℚ) * 2 ^ q) (n * 2 ^ r) with h | h | h
  · exact absurd (lt_of_within hm hn h hx hy) (lt_irrefl x)
  · exact eq_of_normal hm hn h
  · exact absurd (lt_of_within hn hm h hy hx) (lt_irrefl x)

end Order

end Decimal

end RadioOccupancy
