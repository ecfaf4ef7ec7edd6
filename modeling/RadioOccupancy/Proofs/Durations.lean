import RadioOccupancy.Duration
import RadioOccupancy.Proofs.Fixed
import RadioOccupancy.Proofs.Quotient

/-!
Which decimals durations are shown as.

    nanoseconds   1e3        999999.5   1e6         999999500   1e9
             -----|--------------(------|---------------(-------|------
                1.000us       1000.000us    1.000ms  1000.000ms    1.000s

The unit is chosen before the decimal is rounded to its places. So the decimal of a duration just below the
next unit is a thousand (`shown_iff`).
-/

namespace RadioOccupancy

namespace Duration
open Number

variable {d u : Number} {n w : Nat} {v v' : TimeUnit}

theorem whole_second : Whole 1e9 1000000000 :=
  whole_of_toInt? (by decide)

theorem whole_milli : Whole 1e6 1000000 :=
  whole_of_toInt? (by decide)

theorem whole_micro : Whole 1e3 1000 :=
  whole_of_toInt? (by decide)

/-! ### The unit -/

theorem reaches_iff (hd : d.isFinite) (hu : Whole u n) : u ≤ d.abs ↔ (n : ℚ) ≤ |d.value| := by
  have habs := (isFinite_abs d).trans hd
  rw [Number.le_iff hu.isFinite habs, hu.value, value_abs]

/-- The unit that a duration is shown in. -/
theorem unit?_eq (hd : d.isFinite) : unit? d =
    if 1000000000 ≤ |d.value| then some ⟨"s", 1e9⟩
    else if 1000000 ≤ |d.value| then some ⟨"ms", 1e6⟩
    else if 1000 ≤ |d.value| then some ⟨"us", 1e3⟩
    else none := by
  have hsecond := reaches_iff hd whole_second
  have hmilli := reaches_iff hd whole_milli
  have hmicro := reaches_iff hd whole_micro
  push_cast at hsecond hmilli hmicro
  rw [unit?, units, List.find?_cons, List.find?_cons, List.find?_cons, List.find?_nil]
  dsimp only
  by_cases h₁ : 1000000000 ≤ |d.value|
  · rw [if_pos h₁, decide_eq_true (hsecond.2 h₁)]
  · rw [if_neg h₁, decide_eq_false (mt hsecond.1 h₁)]
    by_cases h₂ : 1000000 ≤ |d.value|
    · rw [if_pos h₂, decide_eq_true (hmilli.2 h₂)]
    · rw [if_neg h₂, decide_eq_false (mt hmilli.1 h₂)]
      by_cases h₃ : 1000 ≤ |d.value|
      · rw [if_pos h₃, decide_eq_true (hmicro.2 h₃)]
      · rw [if_neg h₃, decide_eq_false (mt hmicro.1 h₃)]

/-! ### The end of the text -/

/-- A text in seconds does not end like one in another unit: a digit stands before its unit. -/
theorem append_second_ne {cs ds : List Char} {c : Char} (hend : Decimal.EndsInDigit cs)
    (hc : c.isDigit = false) : cs ++ ['s'] ≠ ds ++ [c, 's'] := by
  intro h
  obtain ⟨init, e, rfl, he⟩ := hend
  rw [← List.singleton_append (x := c), ← List.append_assoc] at h
  obtain ⟨h, -⟩ := List.append_inj' h rfl
  obtain ⟨-, h⟩ := List.append_inj' h rfl
  rw [List.singleton_inj.1 h, hc] at he
  cases he

theorem append_unit_inj {cs ds : List Char} {c e : Char} (h : cs ++ [c, 's'] = ds ++ [e, 's']) :
    cs = ds ∧ c = e := by
  obtain ⟨h, hlast⟩ := List.append_inj' h rfl
  exact ⟨h, (List.cons.inj hlast).1⟩

/-- Only seconds have one letter. -/
theorem symbol_of_mem (hv : v ∈ units) : v = ⟨"s", 1e9⟩ ∨ ∃ c, v.symbol.toList = [c, 's'] := by
  rw [units, List.mem_cons, List.mem_cons, List.mem_singleton] at hv
  rcases hv with rfl | rfl | rfl
  · exact .inl rfl
  · exact .inr ⟨'m', by decide⟩
  · exact .inr ⟨'u', by decide⟩

theorem eq_of_symbol (hv : v ∈ units) (hv' : v' ∈ units) (h : v.symbol = v'.symbol) : v = v' := by
  rw [units, List.mem_cons, List.mem_cons, List.mem_singleton] at hv hv'
  rcases hv with rfl | rfl | rfl <;> rcases hv' with rfl | rfl | rfl <;>
    first | rfl | exact absurd h (by decide)

/-- A text that ends in a unit of two letters is in that unit. -/
theorem text_eq_iff {c : Char} (hd : d.isFinite) (hv : v ∈ units) (hsymbol : v.symbol.toList = [c, 's'])
    (hdigit : c.isDigit = false) (hn : c ≠ 'n') (body : String) :
    text d = body ++ v.symbol ↔ unit? d = some v ∧ body = (d / v.nanoseconds).fixed 3 := by
  constructor
  · intro h
    have hlist : (text d).toList = body.toList ++ [c, 's'] := by rw [h, String.toList_append, hsymbol]
    rw [text, if_pos hd] at hlist
    cases hunit : unit? d with
    | none =>
      rw [hunit] at hlist
      dsimp only at hlist
      rw [String.toList_append] at hlist
      exact absurd (append_unit_inj hlist).2.symm hn
    | some v' =>
      rw [hunit] at hlist
      dsimp only at hlist
      rw [String.toList_append] at hlist
      have hv' := List.mem_of_find?_eq_some hunit
      obtain rfl | ⟨e, he⟩ := symbol_of_mem hv'
      · have hfin : (d / 1e9).isFinite :=
          isFinite_div_of_one_le hd whole_second.isFinite (by rw [whole_second.value]; norm_num)
            (by rw [whole_second.value]; norm_num)
        exact absurd hlist (append_second_ne (endsInDigit_fixed hfin 3) hdigit)
      · rw [he] at hlist
        obtain ⟨hbody, rfl⟩ := append_unit_inj hlist
        obtain rfl := eq_of_symbol hv' hv (String.toList_inj.1 (he.trans hsymbol.symm))
        exact ⟨rfl, (String.toList_inj.1 hbody).symm⟩
  · rintro ⟨hunit, rfl⟩
    rw [text, if_pos hd, hunit]

theorem unit?_milli_iff (hd : d.isFinite) :
    unit? d = some ⟨"ms", 1e6⟩ ↔ 1000000 ≤ |d.value| ∧ |d.value| < 1000000000 := by
  rw [unit?_eq hd]
  split_ifs <;> simp <;> grind

theorem unit?_micro_iff (hd : d.isFinite) :
    unit? d = some ⟨"us", 1e3⟩ ↔ 1000 ≤ |d.value| ∧ |d.value| < 1000000 := by
  rw [unit?_eq hd]
  split_ifs <;> simp <;> grind

/-- Which durations are shown in milliseconds, -/
theorem text_eq_milli_iff (hd : d.isFinite) (body : String) : text d = body ++ "ms" ↔
    (1000000 ≤ |d.value| ∧ |d.value| < 1000000000) ∧ body = (d / 1e6).fixed 3 := by
  rw [← unit?_milli_iff hd]
  exact text_eq_iff hd (.tail _ (.head _)) (c := 'm') (by decide) rfl (by decide) body

/-- and which in microseconds. -/
theorem text_eq_micro_iff (hd : d.isFinite) (body : String) : text d = body ++ "us" ↔
    (1000 ≤ |d.value| ∧ |d.value| < 1000000) ∧ body = (d / 1e3).fixed 3 := by
  rw [← unit?_micro_iff hd]
  exact text_eq_iff hd (.tail _ (.tail _ (.head _))) (c := 'u') (by decide) rfl (by decide) body

/-! ### The decimal -/

/-- A number below the next one is not above the one before. -/
theorem le_of_lt_succ {k : Nat} {t : Int} {x : Number} (hk : Normal k t) (hx : x.isFinite)
    (hpos : 0 < x.value) (hlt : x.value < (k + 1 : Nat) * 2 ^ t) : x.value ≤ k * 2 ^ t := by
  obtain ⟨m, e, hm, hu⟩ := unpack_of_pos hx hpos
  rw [value_of_positive hu] at hlt ⊢
  by_contra! hgt
  exact hlt.not_ge (succ_mul_le hk (normal_of_unpack hu) hgt)

/-- The number before 999.9995. -/
theorem normal_before_thousand : Normal 8796088624161488 (-43) :=
  ⟨by norm_num, by norm_num, Or.inl (by norm_num)⟩

/-- The middle between the number before 999.9995 and the one after it. -/
def thousandFrom : ℚ :=
  (2 * 8796088624161488 + 1 : Nat) * 2 ^ (-43 - 1 : Int)

/-- From there on the quotient of a positive number is a thousand at three places, -/
theorem lastPlaces_lt_iff {a : Number} (ha : a.isFinite) (hpos : 0 < a.value) (hu : u.isFinite)
    (hpos' : 0 < u.value) (hx : (a / u).isFinite) :
    lastPlaces 3 (a / u) < 1000000 ↔ a.value / u.value < thousandFrom := by
  have hfull : 2 ^ 52 ≤ 8796088624161488 := by norm_num
  have hle := div_le_mul_iff ha hpos hu hpos' hx normal_before_thousand hfull
  have hlt := mul_lt_div_iff ha hpos hu hpos' hx normal_before_thousand hfull
  have hnext := succ_mul_le_div_iff ha hpos hu hpos' hx normal_before_thousand hfull
  have hnonneg := value_div_nonneg ha hu hpos' hx hpos.le
  have hcount : lastPlaces 3 (a / u) < 1000000 ↔ (a / u).value < 999.9995 := by
    rw [lastPlaces, abs_of_nonneg hnonneg, Nat.floor_lt (by positivity)]
    norm_num
    constructor <;> intro h <;> linarith
  rw [hcount, thousandFrom, ← hle, ← not_lt, hlt, ← hnext, not_le]
  constructor
  · intro h
    exact h.trans (by norm_num)
  · intro h
    have hbefore := not_lt.1 fun hgt => h.not_ge (hnext.2 (hlt.1 hgt))
    exact hbefore.trans_lt (by norm_num)

/-- and so is that of a negative one. -/
theorem lastPlaces_lt_iff_abs (hd : d.isFinite) (hne : d.value ≠ 0) (hu : u.isFinite) (hpos : 0 < u.value)
    (hx : (d / u).isFinite) : lastPlaces 3 (d / u) < 1000000 ↔ |d.value| / u.value < thousandFrom := by
  obtain ⟨hfin, hvalue⟩ := value_abs_div hd hu hpos hx
  have hcount : lastPlaces 3 (d / u) = lastPlaces 3 (d.abs / u) := by
    rw [lastPlaces, lastPlaces, hvalue, abs_abs]
  have hpos' : 0 < Number.value d.abs := by
    rw [value_abs]
    exact abs_pos.2 hne
  rw [hcount, ← value_abs]
  exact lastPlaces_lt_iff ((isFinite_abs d).trans hd) hpos' hu hpos hfin

theorem lastPlaces_between {x : Number} (hone : 1 ≤ |x.value|) (hthousand : |x.value| ≤ 1000) :
    1000 ≤ lastPlaces 3 x ∧ lastPlaces 3 x ≤ 1000000 := by
  rw [lastPlaces]
  constructor
  · exact Nat.le_floor (by push_cast; linarith)
  · exact Nat.lt_succ_iff.1 ((Nat.floor_lt (by positivity)).2 (by push_cast; linarith))

/-- A duration that reaches a unit and not a thousand of it is read as at least one and at most a thousand,
and as a thousand from `J + 1` on. -/
theorem read_shown {J : Nat} {f : Int} (hd : d.isFinite) (hu : Whole u w) (hw : 0 < w)
    (hroom : 1000 * w < 2 ^ 53) (hlow : (w : ℚ) ≤ |d.value|) (hhigh : |d.value| ≤ 1000 * w) (hJ : Normal J f)
    (hbefore : (J : ℚ) * 2 ^ f / w < thousandFrom) (hfrom : thousandFrom ≤ (J + 1 : Nat) * 2 ^ f / w) :
    ∃ p, read ((d / u).fixed 3).toList = .finite p ∧ 1 ≤ |p| ∧ |p| ≤ 1000 ∧
      (|p| < 1000 ↔ |d.value| < (J + 1 : Nat) * 2 ^ f) := by
  have hw' : (0 : ℚ) < w := by exact_mod_cast hw
  have hpos := hu.value_pos hw
  have hx : (d / u).isFinite := isFinite_div_of_abs_le hd hu.isFinite hpos (by rw [hu.value]; linarith)
  have hone : ((1 : Nat) : ℚ) ≤ |(d / u).value| :=
    le_abs_value_div hd hu hw hx one_pos (by omega) (by rwa [one_mul])
  have hthousand : |(d / u).value| ≤ (1000 : Nat) :=
    abs_value_div_le_of_whole hd hu hw hx (by norm_num) hroom (by push_cast; exact hhigh)
  push_cast at hone hthousand
  obtain ⟨hleast, hmost⟩ := lastPlaces_between hone hthousand
  obtain ⟨p, hread, hp⟩ := abs_read_fixed (Nat.succ_pos 2) hx (hthousand.trans_lt (by norm_num))
  have hdpos : 0 < |d.value| := hw'.trans_le hlow
  have hlt := lastPlaces_lt_iff_abs hd (abs_pos.1 hdpos) hu.isFinite hpos hx
  rw [hu.value] at hlt
  refine ⟨p, hread, ?_, ?_, ?_⟩
  · rw [hp, one_le_div (by norm_num)]
    exact_mod_cast hleast
  · rw [hp, div_le_iff₀ (by norm_num)]
    exact_mod_cast hmost
  · have hthousandth : (lastPlaces 3 (d / u) : ℚ) / 10 ^ 3 < 1000 ↔ lastPlaces 3 (d / u) < 1000000 := by
      rw [div_lt_iff₀ (by norm_num), ← Nat.cast_lt (α := ℚ)]
      norm_num
    rw [hp, hthousandth, hlt]
    constructor
    · intro h
      exact (div_lt_div_iff_of_pos_right hw').1 (h.trans_le hfrom)
    · intro h
      rw [← value_abs] at h hdpos ⊢
      have hle := le_of_lt_succ hJ ((isFinite_abs d).trans hd) hdpos h
      exact ((div_le_div_iff_of_pos_right hw').2 hle).trans_lt hbefore

theorem read_milli (hd : d.isFinite) (hlow : 1000000 ≤ |d.value|) (hhigh : |d.value| < 1000000000) :
    ∃ p, read ((d / 1e6).fixed 3).toList = .finite p ∧ 1 ≤ |p| ∧ |p| ≤ 1000 ∧
      (|p| < 1000 ↔ |d.value| < 999999500) := by
  have hshown := read_shown (J := 8388603805695999) (f := -23) hd whole_milli (by norm_num) (by norm_num)
    (by push_cast; exact hlow) (by push_cast; linarith) ⟨by norm_num, by norm_num, Or.inl (by norm_num)⟩
    (by rw [thousandFrom]; norm_num) (by rw [thousandFrom]; norm_num)
  have hfrom : ((8388603805695999 + 1 : Nat) : ℚ) * 2 ^ (-23 : Int) = 999999500 := by norm_num
  rwa [hfrom] at hshown

theorem read_micro (hd : d.isFinite) (hlow : 1000 ≤ |d.value|) (hhigh : |d.value| < 1000000) :
    ∃ p, read ((d / 1e3).fixed 3).toList = .finite p ∧ 1 ≤ |p| ∧ |p| ≤ 1000 ∧
      (|p| < 1000 ↔ |d.value| < 999999.5) := by
  have hshown := read_shown (J := 8589930297032703) (f := -33) hd whole_micro (by norm_num) (by norm_num)
    (by push_cast; exact hlow) (by push_cast; linarith) ⟨by norm_num, by norm_num, Or.inl (by norm_num)⟩
    (by rw [thousandFrom]; norm_num) (by rw [thousandFrom]; norm_num)
  have hfrom : ((8589930297032703 + 1 : Nat) : ℚ) * 2 ^ (-33 : Int) = 999999.5 := by norm_num
  rwa [hfrom] at hshown

/-- A duration is shown in the unit that it reaches, and as one or more of it. It is shown as less than a
thousand unless it is within half a last place of the next unit. -/
theorem shown_iff (hd : d.isFinite) :
    ((∃ body, text d = body ++ "ms") ↔ 1000000 ≤ |d.value| ∧ |d.value| < 1000000000) ∧
    ((∃ body, text d = body ++ "us") ↔ 1000 ≤ |d.value| ∧ |d.value| < 1000000) ∧
    (∀ body, text d = body ++ "ms" → ∃ p, read body.toList = .finite p ∧ 1 ≤ |p| ∧ |p| ≤ 1000 ∧
      (|p| < 1000 ↔ |d.value| < 999999500)) ∧
    (∀ body, text d = body ++ "us" → ∃ p, read body.toList = .finite p ∧ 1 ≤ |p| ∧ |p| ≤ 1000 ∧
      (|p| < 1000 ↔ |d.value| < 999999.5)) := by
  simp only [text_eq_milli_iff hd, text_eq_micro_iff hd, exists_and_left, exists_eq, and_true, true_and]
  constructor
  · rintro body ⟨⟨hlow, hhigh⟩, rfl⟩
    exact read_milli hd hlow hhigh
  · rintro body ⟨⟨hlow, hhigh⟩, rfl⟩
    exact read_micro hd hlow hhigh

/-- 2500 nanoseconds are shown as a number of microseconds that is less than a thousand. -/
theorem shown_as_micro : (2500 : Number).isFinite ∧ text 2500 = "2.500" ++ "us" ∧
    ∃ p, read "2.500".toList = .finite p ∧ 1 ≤ |p| ∧ |p| < 1000 := by
  have hd : (2500 : Number).isFinite := by decide +kernel
  have htext : text 2500 = "2.500" ++ "us" := by decide +kernel
  have hvalue : Number.value 2500 = 2500 := by decide +kernel
  obtain ⟨p, hread, hone, -, hlt⟩ := (shown_iff hd).2.2.2 _ htext
  refine ⟨hd, htext, p, hread, hone, hlt.2 ?_⟩
  rw [hvalue]
  norm_num

/-- A nanosecond less than a second is shown as a thousand milliseconds, on both sides of zero, and half a
nanosecond less than a millisecond as a thousand microseconds. -/
theorem shown_as_thousand :
    (text 999999999 = "1000.000ms" ∧ text (-999999999) = "-1000.000ms" ∧ text 999999.5 = "1000.000us") ∧
    read "1000.000".toList = .finite 1000 := by
  refine ⟨⟨by decide, by decide, by decide⟩, ?_⟩
  have htext : "1000.000" = Decimal.fixedText 3 1000000 := by decide
  obtain ⟨c, rest, hcons, hc⟩ := Decimal.head_fixedText 3 1000000
  rw [htext, hcons, read_of_isDigit hc, ← hcons, Decimal.read_fixedText (by norm_num)]
  norm_num

end Duration

end RadioOccupancy
