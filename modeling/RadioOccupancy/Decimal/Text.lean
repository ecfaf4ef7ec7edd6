import RadioOccupancy.Decimal.Shortest

/-!
How a number is written in messages, log lines and answers.

A number is written with its shortest digits, positionally from `1e-6` up to and not including
`1e21`, and with a signed exponent outside that range. Whole numbers carry no point, and neither
zero carries a sign.
-/

namespace RadioOccupancy

namespace Decimal

/-- Positional writing ends where the point would stand more than this many digits to the right. -/
def positionalDigits : Int := 21

/-- Positional writing ends where more zeros than one less than this follow the point. -/
def leadingZeros : Int := 6

/-- So many zeros. -/
def zeros (n : Nat) : String :=
  String.ofList (List.replicate n '0')

/-- The point stands among the digits, after the first `n` of them. -/
def withPoint (digits : List Char) (n : Nat) : String :=
  String.ofList (digits.take n) ++ "." ++ String.ofList (digits.drop n)

/-- One digit, the point if more digits follow, and the signed power of ten. -/
def scientific (digits : List Char) (power : Int) : String :=
  let significand := if digits.length ≤ 1 then String.ofList digits else withPoint digits 1
  let sign := if power < 0 then "-" else "+"
  significand ++ "e" ++ sign ++ toString power.natAbs

/-- The text of a positive decimal without zeros at its end. -/
def text (d : Decimal) : String :=
  let digits := (toString d.digits).toList
  -- how many digits stand before the point
  let before := digits.length + d.exponent
  if digits.length ≤ before && before ≤ positionalDigits then
    String.ofList digits ++ zeros d.exponent.toNat
  else if 0 < before && before ≤ positionalDigits then
    withPoint digits before.toNat
  else if -leadingZeros < before && before ≤ 0 then
    "0." ++ zeros (-before).toNat ++ String.ofList digits
  else
    scientific digits (before - 1)

end Decimal

namespace Number
open Float.Model

/-- The text of a number. -/
def text (x : Number) : String :=
  match x.unpack with
  | .notANumber => "NaN"
  | .infinity .positive => "Infinity"
  | .infinity .negative => "-Infinity"
  | .zero _ => "0"
  | .finite .positive m q _ => (Decimal.shortest m q).text
  | .finite .negative m q _ => "-" ++ (Decimal.shortest m q).text

end Number

end RadioOccupancy
