/-!
Times, durations, powers and thresholds are binary64 numbers. This module holds the questions the
rest of the library asks of them beyond arithmetic and order: whether a number is whole, which whole
number is nearest or next below, which of two is larger when one may be undefined, and whether two
numbers count as the same key.

Every answer is computed from the sign, the significand and the binary exponent, so nothing is
rounded on the way.
-/

namespace RadioOccupancy

/-- A power of two, as significands and binary exponents use it. -/
def twoTo (n : Nat) : Nat :=
  Nat.pow 2 n

/-- A power of ten, as decimal places use it. -/
def tenTo (n : Nat) : Nat :=
  Nat.pow 10 n

/-- A binary64 number, with its infinities, its two zeros and its undefined value. -/
abbrev Number := Float

namespace Number
open Float.Model

/-- The exact content of a number: a signed `m * 2 ^ q`, a zero, an infinity or undefined. -/
def unpack (x : Number) : UnpackedFloat :=
  .unpack .binary64 x.toBits.toBitVec

/-- The undefined number. -/
def undefined : Number := 0.0 / 0.0

/-- The number above all finite ones. -/
def infinite : Number := 1.0 / 0.0

/-- Zero with a minus sign. It compares equal to zero and is told apart by its bits. -/
def isNegativeZero (x : Number) : Bool :=
  x.toBits == 0x8000000000000000

/-- `m * 2 ^ q` is a whole number. -/
def isWhole (m : Nat) (q : Int) : Bool :=
  0 ≤ q || m % twoTo (-q).toNat == 0

/-- `m * 2 ^ q` rounded down. -/
def wholePart (m : Nat) (q : Int) : Nat :=
  if 0 ≤ q then m * twoTo q.toNat else m / twoTo (-q).toNat

/-- A finite number without a fractional part. -/
def isInteger (x : Number) : Bool :=
  match x.unpack with
  | .zero _ => true
  | .finite _ m q _ => isWhole m q
  | .infinity _ | .notANumber => false

/-- The whole number a finite number without a fractional part stands for; both zeros are `0`. -/
def toInt? (x : Number) : Option Int :=
  match x.unpack with
  | .zero _ => some 0
  | .finite s m q _ => if isWhole m q then some (s.apply (wholePart m q)) else none
  | .infinity _ | .notANumber => none

/-- How many whole units fit into a number: its whole part if it is finite and positive, else none. -/
def floorNat (x : Number) : Nat :=
  match x.unpack with
  | .finite .positive m q _ => wholePart m q
  | _ => 0

/-- The nearest whole number; halfway between two, the one above. Zero has no sign in the answer,
and infinite or undefined numbers stay what they are. -/
def roundHalfUp (x : Number) : Number :=
  match x.unpack with
  | .zero _ => 0
  | .finite s m q _ =>
    if 0 ≤ q then x
    else
      let unit : Int := twoTo (-q).toNat
      Float.ofInt ((2 * s.apply m + unit) / (2 * unit))
  | .infinity _ | .notANumber => x

/-- Neither undefined, infinite nor below zero; negative zero qualifies. -/
def isTime (x : Number) : Bool :=
  x.isFinite && 0 ≤ x

/-- The larger of two numbers. An undefined argument makes the answer undefined, and zero is taken
to be larger than negative zero. -/
def maximum (a b : Number) : Number :=
  if a.isNaN || b.isNaN then undefined
  else if a < b then b
  else if b < a then a
  else if a.isNegativeZero then b else a

/-- The smaller of two numbers, with the conventions of `maximum`. -/
def minimum (a b : Number) : Number :=
  if a.isNaN || b.isNaN then undefined
  else if a < b then a
  else if b < a then b
  else if b.isNegativeZero then b else a

/-- Two numbers name the same key: equal numbers do, whatever the sign of a zero, and undefined
names itself. -/
def same (a b : Number) : Bool :=
  a == b || (a.isNaN && b.isNaN)

end Number

end RadioOccupancy
