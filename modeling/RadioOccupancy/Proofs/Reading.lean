import RadioOccupancy.Decimal.Text
import RadioOccupancy.Proofs.Shortest

/-!
The text of a number names the number.

Texts are taken apart by a reader that undoes the four layouts of `Decimal.text`:

    text         ::=  "NaN"  |  "-"? "Infinity"  |  "-"? point ( "e" sign digits )?
    point        ::=  digits  |  digits "." digits

It finds the decimal that was written (`read_text`), and the shortest decimal of a number is that of no other.
So two numbers have the same text exactly if they name the same key (`text_eq_iff`).
-/

namespace RadioOccupancy

namespace Decimal

/-! ### The reader -/

/-- What stands before the first `c` and what stands behind it. -/
def cut (c : Char) (cs : List Char) : List Char × List Char :=
  (cs.takeWhile (· ≠ c), (cs.dropWhile (· ≠ c)).drop 1)

/-- The number that digits spell. -/
def ofDigits (cs : List Char) : Nat :=
  Nat.ofDigitChars 10 cs 0

/-- Digits with or without a point among them. -/
def readPoint (cs : List Char) : ℚ :=
  let (whole, fraction) := cut '.' cs
  ofDigits (whole ++ fraction) * 10 ^ (-fraction.length : Int)

/-- A power of ten after its sign, or none. -/
def readPower : List Char → Int
  | '-' :: cs => -ofDigits cs
  | '+' :: cs => ofDigits cs
  | _ => 0

/-- A decimal without a sign. -/
def read (cs : List Char) : ℚ :=
  let (significand, power) := cut 'e' cs
  readPoint significand * 10 ^ readPower power

theorem cut_of_notMem {c : Char} {cs : List Char} (h : c ∉ cs) : cut c cs = (cs, []) := by
  have hall : ∀ x ∈ cs, decide (x ≠ c) = true := fun x hx => decide_eq_true fun hc => h (hc ▸ hx)
  rw [cut, List.takeWhile_eq_self_iff.2 hall, List.dropWhile_eq_nil_iff.2 hall, List.drop_nil]

theorem cut_append {c : Char} {cs : List Char} (h : c ∉ cs) (ds : List Char) :
    cut c (cs ++ c :: ds) = (cs, ds) := by
  have hall : ∀ x ∈ cs, decide (x ≠ c) = true := fun x hx => decide_eq_true fun hc => h (hc ▸ hx)
  rw [cut, List.takeWhile_append_of_pos hall, List.dropWhile_append_of_pos hall]
  simp

theorem readPoint_of_notMem {cs : List Char} (h : '.' ∉ cs) : readPoint cs = ofDigits cs := by
  simp [readPoint, cut_of_notMem h]

theorem readPoint_append {cs : List Char} (h : '.' ∉ cs) (ds : List Char) :
    readPoint (cs ++ '.' :: ds) = ofDigits (cs ++ ds) * 10 ^ (-ds.length : Int) := by
  rw [readPoint, cut_append h]

theorem read_of_notMem {cs : List Char} (h : 'e' ∉ cs) : read cs = readPoint cs := by
  simp [read, cut_of_notMem h, readPower]

theorem read_append {cs : List Char} (h : 'e' ∉ cs) (ds : List Char) :
    read (cs ++ 'e' :: ds) = readPoint cs * 10 ^ readPower ds := by
  rw [read, cut_append h]

/-! ### Digits -/

/-- The digits of a number. -/
def digitsOf (n : Nat) : List Char :=
  (toString n).toList

theorem digitsOf_eq (n : Nat) : digitsOf n = Nat.toDigits 10 n := by
  rw [digitsOf, Nat.toString_eq_ofList_toDigits, String.toList_ofList]

theorem ofDigits_digitsOf (n : Nat) : ofDigits (digitsOf n) = n := by
  rw [digitsOf_eq, ofDigits, Nat.ofDigitChars_ten_toDigits]

theorem isDigit_of_mem {n : Nat} {c : Char} (h : c ∈ digitsOf n) : c.isDigit := by
  rw [digitsOf_eq] at h
  exact Nat.isDigit_of_mem_toDigits (by decide) (by decide) h

theorem length_digitsOf_pos (n : Nat) : 0 < (digitsOf n).length := by
  rw [digitsOf_eq]
  exact Nat.length_toDigits_pos

theorem notMem_digitsOf {c : Char} (h : c.isDigit = false) (n : Nat) : c ∉ digitsOf n := by
  intro hc
  rw [isDigit_of_mem hc] at h
  cases h

/-- Zeros behind digits multiply by ten. -/
theorem ofDigits_append_zeros (cs : List Char) (k : Nat) :
    ofDigits (cs ++ List.replicate k '0') = ofDigits cs * 10 ^ k := by
  rw [ofDigits, Nat.ofDigitChars_append, Nat.ofDigitChars_replicate_zero, mul_comm]
  rfl

/-- Zeros in front of digits count for nothing. -/
theorem ofDigits_zeros_append (cs : List Char) (k : Nat) :
    ofDigits (List.replicate k '0' ++ cs) = ofDigits cs := by
  rw [ofDigits, Nat.ofDigitChars_append, Nat.ofDigitChars_replicate_zero, mul_zero]
  rfl

/-! ### The layouts -/

theorem toList_zeros (k : Nat) : (zeros k).toList = List.replicate k '0' :=
  String.toList_ofList

theorem toList_withPoint (cs : List Char) (k : Nat) :
    (withPoint cs k).toList = cs.take k ++ '.' :: cs.drop k := by
  simp [withPoint]

theorem toList_scientific (cs : List Char) (power : Int) :
    (scientific cs power).toList =
      (if cs.length ≤ 1 then cs else cs.take 1 ++ '.' :: cs.drop 1) ++
        'e' :: (if power < 0 then '-' else '+') :: digitsOf power.natAbs := by
  rw [scientific, digitsOf]
  split <;> split <;> simp [toList_withPoint]

/-- What a decimal can look like. -/
inductive Layout (d : Decimal) : List Char → Prop
  /-- zeros stand behind the digits -/
  | whole (k : Nat) (h : d.exponent = k) : Layout d (digitsOf d.digits ++ List.replicate k '0')
  /-- the point stands among the digits -/
  | inside (k : Nat) (hpos : 0 < k) (h : (digitsOf d.digits).length + d.exponent = k)
      (hneg : d.exponent < 0) : Layout d ((digitsOf d.digits).take k ++ '.' :: (digitsOf d.digits).drop k)
  /-- the point and zeros stand before the digits -/
  | fraction (k : Nat) (h : (digitsOf d.digits).length + d.exponent = -k) :
      Layout d ('0' :: '.' :: (List.replicate k '0' ++ digitsOf d.digits))
  /-- a power of ten stands behind the digits -/
  | power (power : Int) (h : (digitsOf d.digits).length + d.exponent = power + 1) :
      Layout d (scientific (digitsOf d.digits) power).toList

theorem layout_text (d : Decimal) : Layout d d.text.toList := by
  have hdigits : (toString d.digits).toList = digitsOf d.digits := rfl
  rw [text, hdigits]
  split
  · next h =>
    rw [Bool.and_eq_true, decide_eq_true_iff] at h
    rw [String.toList_append, String.toList_ofList, toList_zeros]
    exact .whole _ (by omega)
  · next hwhole =>
    rw [Bool.and_eq_true, decide_eq_true_iff, decide_eq_true_iff] at hwhole
    split
    · next h =>
      rw [Bool.and_eq_true, decide_eq_true_iff, decide_eq_true_iff] at h
      rw [toList_withPoint]
      exact .inside _ (by omega) (by omega) (by omega)
    · split
      · next h =>
        rw [Bool.and_eq_true, decide_eq_true_iff, decide_eq_true_iff] at h
        rw [String.toList_append, String.toList_append, toList_zeros, String.toList_ofList,
          String.toList_ofList, List.append_assoc, List.cons_append, List.cons_append, List.nil_append]
        exact .fraction _ (by omega)
      · exact .power _ (by omega)

/-! ### Each layout is read as it was written -/

theorem readPoint_take {cs : List Char} (h : '.' ∉ cs) (k : Nat) :
    readPoint (cs.take k ++ '.' :: cs.drop k) = ofDigits cs * 10 ^ (-(cs.length - k : Nat) : Int) := by
  rw [readPoint_append fun hc => h (List.mem_of_mem_take hc), List.take_append_drop, List.length_drop]

theorem readPower_signed (power : Int) :
    readPower ((if power < 0 then '-' else '+') :: digitsOf power.natAbs) = power := by
  split
  · next h =>
    rw [readPower, ofDigits_digitsOf]
    omega
  · next h =>
    rw [readPower, ofDigits_digitsOf]
    omega

/-- A point among the digits adds no other sign to them. -/
theorem notMem_take {c : Char} {cs : List Char} (h : c ∉ cs) (hc : c ≠ '.') (k : Nat) :
    c ∉ cs.take k ++ '.' :: cs.drop k := by
  rw [List.mem_append, List.mem_cons]
  rintro (h' | h' | h')
  · exact h (List.mem_of_mem_take h')
  · exact hc h'
  · exact h (List.mem_of_mem_drop h')

theorem read_scientific (n : Nat) (power : Int) :
    read (scientific (digitsOf n) power).toList = n * 10 ^ (power + 1 - (digitsOf n).length) := by
  have hpoint : '.' ∉ digitsOf n := notMem_digitsOf rfl n
  have he : 'e' ∉ digitsOf n := notMem_digitsOf rfl n
  have hpos := length_digitsOf_pos n
  rw [toList_scientific]
  split
  · rw [read_append he, readPower_signed, readPoint_of_notMem hpoint, ofDigits_digitsOf]
    congr 2
    omega
  · rw [read_append (notMem_take he (by decide) 1), readPower_signed, readPoint_take hpoint,
      ofDigits_digitsOf, mul_assoc, ← zpow_add₀ (by norm_num)]
    congr 2
    omega

/-- In every layout the decimal is read as it was written. -/
theorem Layout.read_eq {d : Decimal} {cs : List Char} (h : Layout d cs) : read cs = d.value := by
  have hpoint : '.' ∉ digitsOf d.digits := notMem_digitsOf rfl _
  have he : 'e' ∉ digitsOf d.digits := notMem_digitsOf rfl _
  rw [value]
  cases h with
  | whole k h =>
    have hpoint' : '.' ∉ digitsOf d.digits ++ List.replicate k '0' := by simp [hpoint]
    have he' : 'e' ∉ digitsOf d.digits ++ List.replicate k '0' := by simp [he]
    rw [read_of_notMem he', readPoint_of_notMem hpoint', ofDigits_append_zeros, ofDigits_digitsOf, h,
      zpow_natCast, Nat.cast_mul, Nat.cast_pow, Nat.cast_ofNat]
  | inside k hpos h hneg =>
    rw [read_of_notMem (notMem_take he (by decide) k), readPoint_take hpoint, ofDigits_digitsOf]
    congr 2
    omega
  | fraction k h =>
    have he' : 'e' ∉ ['0'] ++ '.' :: (List.replicate k '0' ++ digitsOf d.digits) := by simp [he]
    have hdigits : ofDigits (['0'] ++ (List.replicate k '0' ++ digitsOf d.digits)) = d.digits := by
      rw [← List.append_assoc, show ['0'] ++ List.replicate k '0' = List.replicate (k + 1) '0' from rfl,
        ofDigits_zeros_append, ofDigits_digitsOf]
    change read (['0'] ++ '.' :: _) = _
    rw [read_of_notMem he', readPoint_append (by decide), hdigits, List.length_append,
      List.length_replicate]
    congr 2
    omega
  | power power h =>
    rw [read_scientific]
    congr 2
    omega

/-- A decimal is read as it was written. -/
theorem read_text (d : Decimal) : read d.text.toList = d.value :=
  (layout_text d).read_eq

/-- Its text begins with a digit. -/
theorem Layout.head {d : Decimal} {cs : List Char} (h : Layout d cs) :
    ∃ c rest, cs = c :: rest ∧ c.isDigit := by
  obtain ⟨c, rest, hcons⟩ := List.exists_cons_of_length_pos (length_digitsOf_pos d.digits)
  have hc : c.isDigit := isDigit_of_mem (hcons ▸ List.mem_cons_self)
  cases h with
  | whole k h => exact ⟨c, _, by rw [hcons, List.cons_append], hc⟩
  | inside k hpos h hneg =>
    obtain ⟨j, rfl⟩ := Nat.exists_eq_add_one.2 hpos
    exact ⟨c, _, by rw [hcons, List.take_succ_cons, List.cons_append], hc⟩
  | fraction k h => exact ⟨'0', _, rfl, rfl⟩
  | power power h =>
    refine ⟨c, ?_⟩
    rw [toList_scientific, hcons]
    split
    · exact ⟨_, rfl, hc⟩
    · exact ⟨_, rfl, hc⟩

/-- The characters that numbers are written with. -/
def isNumeral (c : Char) : Bool :=
  c.isAlphanum || c == '.' || c == '+' || c == '-'

theorem isNumeral_of_mem {n : Nat} {c : Char} (h : c ∈ digitsOf n) : isNumeral c := by
  simp [isNumeral, Char.isAlphanum, isDigit_of_mem h]

theorem isNumeral_of_mem_take {n k : Nat} {c : Char}
    (h : c ∈ (digitsOf n).take k ++ '.' :: (digitsOf n).drop k) : isNumeral c := by
  rw [List.mem_append, List.mem_cons] at h
  rcases h with h | rfl | h
  · exact isNumeral_of_mem (List.mem_of_mem_take h)
  · rfl
  · exact isNumeral_of_mem (List.mem_of_mem_drop h)

theorem Layout.isNumeral {d : Decimal} {cs : List Char} (h : Layout d cs) {c : Char} (hc : c ∈ cs) :
    isNumeral c := by
  have hzeros (k : Nat) (h : c ∈ List.replicate k '0') : Decimal.isNumeral c := by
    rw [List.eq_of_mem_replicate h]
    rfl
  cases h with
  | whole k h => exact (List.mem_append.1 hc).elim isNumeral_of_mem (hzeros k)
  | inside k hpos h hneg => exact isNumeral_of_mem_take hc
  | fraction k h =>
    rw [List.mem_cons, List.mem_cons, List.mem_append] at hc
    rcases hc with rfl | rfl | hc | hc
    · rfl
    · rfl
    · exact hzeros k hc
    · exact isNumeral_of_mem hc
  | power power h =>
    rw [toList_scientific, List.mem_append, List.mem_cons, List.mem_cons] at hc
    rcases hc with hc | rfl | rfl | hc
    · split at hc
      · exact isNumeral_of_mem hc
      · exact isNumeral_of_mem_take hc
    · rfl
    · split <;> rfl
    · exact isNumeral_of_mem hc

end Decimal

namespace Number
open Float.Model Float.Model.UnpackedFloat

/-! ### Numbers -/

/-- What the text of a number says. -/
inductive Reading where
  | undefined
  | infinite (sign : Sign)
  | finite (x : ℚ)

/-- A magnitude with a sign. -/
def signed : Sign → ℚ → ℚ
  | .positive, x => x
  | .negative, x => -x

theorem signed_ne_zero (s : Sign) {x : ℚ} (hx : 0 < x) : signed s x ≠ 0 := by
  cases s with
  | positive => exact hx.ne'
  | negative => exact neg_ne_zero.2 hx.ne'

theorem signed_inj {s t : Sign} {x y : ℚ} (hx : 0 < x) (hy : 0 < y) (h : signed s x = signed t y) :
    s = t ∧ x = y := by
  cases s <;> cases t <;> rw [signed, signed] at h
  · exact ⟨rfl, neg_inj.1 h⟩
  · linarith
  · linarith
  · exact ⟨rfl, h⟩

/-- What the text of a number is meant to say: the shortest decimal of a finite number with its sign. -/
def reading (x : Number) : Reading :=
  match x.unpack with
  | .notANumber => .undefined
  | .infinity s => .infinite s
  | .zero _ => .finite 0
  | .finite s m q _ => .finite (signed s (Decimal.shortest m q).value)

/-- The reader of numbers: a word or a decimal, after a sign. -/
def read : List Char → Reading
  | 'N' :: _ => .undefined
  | 'I' :: _ => .infinite .positive
  | '-' :: 'I' :: _ => .infinite .negative
  | '-' :: cs => .finite (-Decimal.read cs)
  | cs => .finite (Decimal.read cs)

theorem ne_of_isDigit {c d : Char} (h : c.isDigit) (hd : d.isDigit = false) : c ≠ d := by
  rintro rfl
  rw [h] at hd
  cases hd

/-- What begins with a digit is read as a decimal, -/
theorem read_of_isDigit {c : Char} (hc : c.isDigit) (cs : List Char) :
    read (c :: cs) = .finite (Decimal.read (c :: cs)) := by
  rw [read.eq_def]
  split
  · next h => exact absurd (List.cons.inj h).1 (ne_of_isDigit hc rfl)
  · next h => exact absurd (List.cons.inj h).1 (ne_of_isDigit hc rfl)
  · next h => exact absurd (List.cons.inj h).1 (ne_of_isDigit hc rfl)
  · next h => exact absurd (List.cons.inj h).1 (ne_of_isDigit hc rfl)
  · rfl

/-- also after a sign. -/
theorem read_neg_of_isDigit {c : Char} (hc : c.isDigit) (cs : List Char) :
    read ('-' :: c :: cs) = .finite (-Decimal.read (c :: cs)) := by
  rw [read.eq_4]
  rintro rest h
  exact ne_of_isDigit hc rfl (List.cons.inj h).1

theorem read_decimal (d : Decimal) : read d.text.toList = .finite d.value := by
  obtain ⟨c, rest, hcons, hc⟩ := (Decimal.layout_text d).head
  rw [← Decimal.read_text, hcons, read_of_isDigit hc]

theorem read_neg_decimal (d : Decimal) : read ("-" ++ d.text).toList = .finite (-d.value) := by
  obtain ⟨c, rest, hcons, hc⟩ := (Decimal.layout_text d).head
  have hminus : ("-" ++ d.text).toList = '-' :: d.text.toList := by simp
  rw [← Decimal.read_text, hminus, hcons, read_neg_of_isDigit hc]

theorem read_zero : read "0".toList = .finite 0 := by
  have hread : Decimal.read ['0'] = 0 := by
    rw [Decimal.read_of_notMem (by decide), Decimal.readPoint_of_notMem (by decide)]
    rfl
  rw [← hread]
  rfl

/-- A number is read as it was written. -/
theorem read_text (x : Number) : read x.text.toList = x.reading := by
  rw [text, reading]
  cases x.unpack with
  | notANumber => rfl
  | infinity s => cases s <;> rfl
  | zero s => exact read_zero
  | finite s m q h =>
    cases s with
    | positive => exact read_decimal _
    | negative => exact read_neg_decimal _

theorem shortest_inj {x y : Number} {s t : Sign} {m n : Nat} {q r : Int} {hm : 0 < m} {hn : 0 < n}
    (hx : x.unpack = .finite s m q hm) (hy : y.unpack = .finite t n r hn)
    (h : signed s (Decimal.shortest m q).value = signed t (Decimal.shortest n r).value) :
    s = t ∧ m = n ∧ q = r := by
  have hwithin := Decimal.within_shortest hm q
  have hwithin' := Decimal.within_shortest hn r
  obtain ⟨hsign, hvalue⟩ := signed_inj (hwithin.pos hm) (hwithin'.pos hn) h
  rw [← hvalue] at hwithin'
  exact ⟨hsign, hwithin.unique (normal_of_unpack hx) (normal_of_unpack hy) hwithin'⟩

/-- What is read names the key. -/
theorem key_eq_of_reading {a b : Number} (h : a.reading = b.reading) : a.key = b.key := by
  have hne {s : Sign} {m : Nat} {q : Int} (hm : 0 < m) : signed s (Decimal.shortest m q).value ≠ 0 :=
    signed_ne_zero s ((Decimal.within_shortest hm q).pos hm)
  rw [reading, reading] at h
  rw [key, key]
  cases ha : a.unpack with
  | notANumber =>
    cases hb : b.unpack with
    | notANumber => rfl
    | infinity | zero | finite =>
      rw [ha, hb] at h
      cases h
  | infinity s =>
    cases hb : b.unpack with
    | infinity t =>
      rw [ha, hb] at h
      cases h
      rfl
    | notANumber | zero | finite =>
      rw [ha, hb] at h
      cases h
  | zero s =>
    cases hb : b.unpack with
    | zero t => rfl
    | finite t n r hn =>
      rw [ha, hb] at h
      exact absurd (Reading.finite.inj h).symm (hne hn)
    | notANumber | infinity =>
      rw [ha, hb] at h
      cases h
  | finite s m q hm =>
    cases hb : b.unpack with
    | finite t n r hn =>
      rw [ha, hb] at h
      obtain ⟨rfl, rfl, rfl⟩ := shortest_inj ha hb (Reading.finite.inj h)
      rfl
    | zero t =>
      rw [ha, hb] at h
      exact absurd (Reading.finite.inj h) (hne hm)
    | notANumber | infinity =>
      rw [ha, hb] at h
      cases h

theorem text_eq_of_key {a b : Number} (h : a.key = b.key) : a.text = b.text := by
  rw [key, key] at h
  rw [text, text]
  cases ha : a.unpack <;> cases hb : b.unpack <;> rw [ha, hb] at h <;> cases h <;> rfl

/-- Two numbers have the same text exactly if they name the same key. -/
theorem text_eq_iff (a b : Number) : a.text = b.text ↔ a.same b := by
  rw [same_iff_key]
  refine ⟨fun h => key_eq_of_reading ?_, text_eq_of_key⟩
  rw [← read_text, ← read_text, h]

/-- The text of a number is made of numerals. -/
theorem isNumeral_of_mem_text {x : Number} {c : Char} (h : c ∈ x.text.toList) : Decimal.isNumeral c := by
  have hword {word : String} (hall : word.toList.all Decimal.isNumeral = true) (hc : c ∈ word.toList) :
      Decimal.isNumeral c := List.all_eq_true.1 hall c hc
  rw [text] at h
  split at h
  · exact hword rfl h
  · exact hword rfl h
  · exact hword rfl h
  · exact hword rfl h
  · exact (Decimal.layout_text _).isNumeral h
  · rw [String.toList_append, List.mem_append] at h
    exact h.elim (hword rfl) (Decimal.layout_text _).isNumeral

end Number

end RadioOccupancy
