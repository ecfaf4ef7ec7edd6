import RadioOccupancy.Proofs.Number
import Mathlib.Order.WithBot

/-!
The order of all numbers, the infinite ones included.

Where a number is not undefined it has a `rank`: the rational number that it stands for, or one of two
further places below and above all of these. Numbers are compared as they are ranked
(`le_iff_rank`, `lt_iff_rank`), so the order is total but for the undefined number. A time plus a duration
may be infinite, so this is what the ends of activities are compared by.
-/

namespace RadioOccupancy

namespace Number
open Float.Model Float.Model.UnpackedFloat

/-- Where a number stands among all numbers, the infinite ones included. -/
def rank (x : Number) : WithBot (WithTop ℚ) :=
  match x.unpack with
  | .infinity .negative => ⊥
  | .infinity .positive => ((⊤ : WithTop ℚ) : WithBot (WithTop ℚ))
  | _ => ((x.value : WithTop ℚ) : WithBot (WithTop ℚ))

theorem rank_of_isFinite {x : Number} (h : x.isFinite) :
    x.rank = ((x.value : WithTop ℚ) : WithBot (WithTop ℚ)) := by
  rw [isFinite_eq] at h
  rw [rank]
  cases hu : x.unpack with
  | infinity =>
    rw [hu] at h
    cases h
  | _ => rfl

/-- A number is finite, infinite or undefined. -/
theorem finite_or_infinite {x : Number} (h : x.isNaN = false) :
    x.isFinite = true ∨ x.unpack = .infinity .negative ∨ x.unpack = .infinity .positive := by
  rw [isNaN_eq] at h
  rw [isFinite_eq]
  cases hu : x.unpack with
  | notANumber =>
    rw [hu] at h
    cases h
  | infinity s => cases s <;> simp
  | zero | finite => exact Or.inl rfl

/-- Numbers are compared as they are ranked, unless one is undefined. -/
theorem compare_rank {a b : Number} (ha : a.isNaN = false) (hb : b.isNaN = false) :
    a.unpack.compare b.unpack = some (compare a.rank b.rank) := by
  have hbot : ∀ q : ℚ, (⊥ : WithBot (WithTop ℚ)) < ((q : WithTop ℚ) : WithBot (WithTop ℚ)) :=
    fun q => WithBot.bot_lt_coe _
  have htop : ∀ q : ℚ, ((q : WithTop ℚ) : WithBot (WithTop ℚ)) < ((⊤ : WithTop ℚ) : WithBot (WithTop ℚ)) :=
    fun q => WithBot.coe_lt_coe.2 (WithTop.coe_lt_top _)
  have hinf : ∀ {x : Number}, x.isFinite = true → ∀ s,
      UnpackedFloat.compare (.infinity s) x.unpack =
        some (match s with | .negative => .lt | .positive => .gt) := by
    intro x hx s
    rw [isFinite_eq] at hx
    cases hu : x.unpack with
    | notANumber | infinity =>
      rw [hu] at hx
      cases hx
    | zero | finite => cases s <;> rfl
  rcases finite_or_infinite ha with hfa | ha | ha <;> rcases finite_or_infinite hb with hfb | hb | hb
  · rw [compare_unpack hfa hfb, rank_of_isFinite hfa, rank_of_isFinite hfb]
    rcases lt_trichotomy a.value b.value with h | h | h
    · rw [compare_lt_iff_lt.2 h, compare_lt_iff_lt.2]
      exact_mod_cast h
    · rw [h, compare_eq_iff_eq.2 rfl, compare_eq_iff_eq.2 rfl]
    · rw [compare_gt_iff_gt.2 h, compare_gt_iff_gt.2]
      exact_mod_cast h
  · rw [compare_flip, hb, hinf hfa, rank_of_isFinite hfa, rank, hb, compare_gt_iff_gt.2 (hbot _)]
    rfl
  · rw [compare_flip, hb, hinf hfa, rank_of_isFinite hfa, rank, hb, compare_lt_iff_lt.2 (htop _)]
    rfl
  · rw [ha, hinf hfb, rank_of_isFinite hfb, rank, ha, compare_lt_iff_lt.2 (hbot _)]
  · rw [ha, hb, rank, rank, ha, hb, compare_eq_iff_eq.2 rfl]
    rfl
  · rw [ha, hb, rank, rank, ha, hb, compare_lt_iff_lt.2 (WithBot.bot_lt_coe _)]
    rfl
  · rw [ha, hinf hfb, rank_of_isFinite hfb, rank, ha, compare_gt_iff_gt.2 (htop _)]
  · rw [ha, hb, rank, rank, ha, hb, compare_gt_iff_gt.2 (WithBot.bot_lt_coe _)]
    rfl
  · rw [ha, hb, rank, rank, ha, hb, compare_eq_iff_eq.2 rfl]
    rfl

theorem isNaN_of_compare {a b : Number} (h : a.unpack.compare b.unpack ≠ none) :
    a.isNaN = false ∧ b.isNaN = false := by
  constructor
  · rw [isNaN_eq, Bool.eq_false_iff]
    intro ha
    rw [(isNaN_iff _).1 ha] at h
    exact h rfl
  · rw [isNaN_eq, Bool.eq_false_iff]
    intro hb
    rw [(isNaN_iff _).1 hb, compare_notANumber] at h
    exact h rfl

theorem le_iff_rank {a b : Number} : a ≤ b ↔ a.isNaN = false ∧ b.isNaN = false ∧ a.rank ≤ b.rank := by
  rw [le_iff_compare]
  constructor
  · intro h
    obtain ⟨ha, hb⟩ := isNaN_of_compare (a := a) (b := b) (by rintro hn; rw [hn] at h; cases h)
    rw [compare_rank ha hb, Option.any_some, Ordering.isLE_iff_ne_gt] at h
    exact ⟨ha, hb, compare_le_iff_le.1 h⟩
  · rintro ⟨ha, hb, h⟩
    rw [compare_rank ha hb, Option.any_some, Ordering.isLE_iff_ne_gt]
    exact compare_le_iff_le.2 h

theorem lt_iff_rank {a b : Number} : a < b ↔ a.isNaN = false ∧ b.isNaN = false ∧ a.rank < b.rank := by
  rw [lt_iff_compare]
  constructor
  · intro h
    obtain ⟨ha, hb⟩ := isNaN_of_compare (a := a) (b := b) (by rw [h]; rintro ⟨⟩)
    rw [compare_rank ha hb, Option.some.injEq] at h
    exact ⟨ha, hb, compare_lt_iff_lt.1 h⟩
  · rintro ⟨ha, hb, h⟩
    rw [compare_rank ha hb, compare_lt_iff_lt.2 h]

/-- A finite number is below the infinite one. -/
theorem lt_infinity {a b : Number} (ha : a.isFinite) (hb : b.unpack = .infinity .positive) : a < b := by
  have hnan : b.isNaN = false := by
    rw [isNaN_eq, hb]
    rfl
  refine lt_iff_rank.2 ⟨not_isNaN ha, hnan, ?_⟩
  rw [rank_of_isFinite ha]
  unfold rank
  rw [hb]
  exact WithBot.coe_lt_coe.2 (WithTop.coe_lt_top _)

protected theorem le_trans {a b c : Number} (h : a ≤ b) (h' : b ≤ c) : a ≤ c := by
  rw [le_iff_rank] at h h' ⊢
  exact ⟨h.1, h'.2.1, h.2.2.trans h'.2.2⟩

protected theorem lt_of_lt_of_le {a b c : Number} (h : a < b) (h' : b ≤ c) : a < c := by
  rw [lt_iff_rank] at h ⊢
  rw [le_iff_rank] at h'
  exact ⟨h.1, h'.2.1, h.2.2.trans_le h'.2.2⟩

protected theorem lt_of_le_of_lt {a b c : Number} (h : a ≤ b) (h' : b < c) : a < c := by
  rw [le_iff_rank] at h
  rw [lt_iff_rank] at h' ⊢
  exact ⟨h.1, h'.2.1, h.2.2.trans_lt h'.2.2⟩

protected theorem le_of_not_lt {a b : Number} (ha : a.isNaN = false) (hb : b.isNaN = false)
    (h : ¬b < a) : a ≤ b := by
  rw [lt_iff_rank] at h
  exact le_iff_rank.2 ⟨ha, hb, not_lt.1 fun hlt => h ⟨hb, ha, hlt⟩⟩

protected theorem le_of_not_le {a b : Number} (ha : a.isNaN = false) (hb : b.isNaN = false)
    (h : ¬b ≤ a) : a ≤ b := by
  rw [le_iff_rank] at h
  exact le_iff_rank.2 ⟨ha, hb, le_of_not_ge fun hle => h ⟨hb, ha, hle⟩⟩

protected theorem le_of_lt {a b : Number} (h : a < b) : a ≤ b := by
  rw [lt_iff_rank] at h
  exact le_iff_rank.2 ⟨h.1, h.2.1, h.2.2.le⟩

protected theorem lt_irrefl (a : Number) : ¬a < a :=
  fun h => not_le_of_lt h (Number.le_of_lt h)

theorem le_refl_of_not_isNaN {a : Number} (ha : a.isNaN = false) : a ≤ a :=
  le_iff_rank.2 ⟨ha, ha, le_rfl⟩

/-- Numbers that are not above each other are equal, but for the sign of a zero. -/
theorem beq_of_le_of_le {a b : Number} (h : a ≤ b) (h' : b ≤ a) : a == b := by
  rw [le_iff_rank] at h h'
  rw [beq_iff_compare, compare_rank h.1 h.2.1, Option.some.injEq, compare_eq_iff_eq]
  exact le_antisymm h.2.2 h'.2.2

/-- What is not below a time that is not above a finite number is one, too. -/
theorem isTime_of_le {a b : Number} (ha : 0 ≤ a) (h : a ≤ b) (hb : b.isTime) : a.isTime := by
  have hfin : a.isFinite := by
    rw [le_iff_rank] at ha h
    rcases finite_or_infinite ha.2.1 with hfin | hinf | hinf
    · exact hfin
    · have hle := ha.2.2
      rw [rank_of_isFinite isFinite_zero, rank, hinf] at hle
      exact absurd hle (WithBot.not_coe_le_bot _)
    · have hle := h.2.2
      rw [rank_of_isFinite (isFinite_of_isTime hb), rank, hinf, WithBot.coe_le_coe] at hle
      exact absurd (top_le_iff.1 hle) (WithTop.coe_ne_top)
  rw [isTime, hfin, Bool.true_and, decide_eq_true_iff]
  exact ha

theorem zero_le_of_isTime {a : Number} (h : a.isTime) : 0 ≤ a := by
  rw [isTime, Bool.and_eq_true, decide_eq_true_iff] at h
  exact h.2

theorem not_isNaN_of_isTime {a : Number} (h : a.isTime) : a.isNaN = false :=
  not_isNaN (isFinite_of_isTime h)

theorem le_rfl_of_isTime {a : Number} (h : a.isTime) : a ≤ a :=
  le_refl_of_not_isNaN (not_isNaN_of_isTime h)

/-- The smaller of two numbers is one of them, and not above the other. -/
theorem minimum_cases {a b : Number} (ha : a.isNaN = false) (hb : b.isNaN = false) :
    a.minimum b = a ∧ a ≤ b ∨ a.minimum b = b ∧ b ≤ a := by
  rw [minimum, ha, hb, Bool.or_false, if_neg Bool.false_ne_true]
  split
  · next h => exact Or.inl ⟨rfl, Number.le_of_lt h⟩
  · next h =>
    have hle := Number.le_of_not_lt hb ha h
    split
    · exact Or.inr ⟨rfl, hle⟩
    · next h' =>
      split
      · exact Or.inr ⟨rfl, hle⟩
      · exact Or.inl ⟨rfl, Number.le_of_not_lt ha hb h'⟩

theorem minimum_le_left {a b : Number} (ha : a.isNaN = false) (hb : b.isNaN = false) :
    a.minimum b ≤ a := by
  rcases minimum_cases ha hb with ⟨h, -⟩ | ⟨h, hle⟩ <;> rw [h]
  · exact le_refl_of_not_isNaN ha
  · exact hle

theorem minimum_le_right {a b : Number} (ha : a.isNaN = false) (hb : b.isNaN = false) :
    a.minimum b ≤ b := by
  rcases minimum_cases ha hb with ⟨h, hle⟩ | ⟨h, -⟩ <;> rw [h]
  · exact hle
  · exact le_refl_of_not_isNaN hb

theorem le_minimum {t a b : Number} (ha : t ≤ a) (hb : t ≤ b) : t ≤ a.minimum b := by
  rcases minimum_cases (le_iff_rank.1 ha).2.1 (le_iff_rank.1 hb).2.1 with ⟨h, -⟩ | ⟨h, -⟩ <;> rwa [h]

/-- The larger of two numbers is one of them, and not below the other. -/
theorem maximum_cases {a b : Number} (ha : a.isNaN = false) (hb : b.isNaN = false) :
    a.maximum b = a ∧ b ≤ a ∨ a.maximum b = b ∧ a ≤ b := by
  rw [maximum, ha, hb, Bool.or_false, if_neg Bool.false_ne_true]
  split
  · next h => exact Or.inr ⟨rfl, Number.le_of_lt h⟩
  · next h =>
    have hle := Number.le_of_not_lt hb ha h
    split
    · exact Or.inl ⟨rfl, hle⟩
    · next h' =>
      split
      · exact Or.inr ⟨rfl, Number.le_of_not_lt ha hb h'⟩
      · exact Or.inl ⟨rfl, hle⟩

theorem foldl_maximum_le {l : List Number} {c m : Number} (hc : c ≤ m) (h : ∀ e ∈ l, e ≤ m) :
    l.foldl maximum c ≤ m := by
  induction l generalizing c with
  | nil => exact hc
  | cons e l ih =>
    obtain ⟨he, h⟩ := List.forall_mem_cons.1 h
    refine ih ?_ h
    rcases maximum_cases (le_iff_rank.1 hc).1 (le_iff_rank.1 he).1 with ⟨heq, -⟩ | ⟨heq, -⟩ <;> rwa [heq]

theorem le_foldl_maximum {l : List Number} {c : Number} (hc : c.isNaN = false)
    (h : ∀ e ∈ l, e.isNaN = false) : c ≤ l.foldl maximum c ∧ ∀ e ∈ l, e ≤ l.foldl maximum c := by
  induction l generalizing c with
  | nil => exact ⟨le_refl_of_not_isNaN hc, by simp⟩
  | cons e l ih =>
    obtain ⟨he, h⟩ := List.forall_mem_cons.1 h
    rw [List.foldl_cons, List.forall_mem_cons]
    rcases maximum_cases hc he with ⟨heq, hle⟩ | ⟨heq, hle⟩ <;> rw [heq]
    · obtain ⟨hstart, hmem⟩ := ih hc h
      exact ⟨hstart, Number.le_trans hle hstart, hmem⟩
    · obtain ⟨hstart, hmem⟩ := ih he h
      exact ⟨Number.le_trans hle hstart, hstart, hmem⟩

end Number

end RadioOccupancy
