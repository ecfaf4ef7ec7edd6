import RadioOccupancy.Decimal.Text

/-!
Numbers with a set count of places behind the point. The exact binary value is rounded to a multiple
of the last place, and a half goes away from zero.
-/

namespace RadioOccupancy

namespace Decimal

/-- `m * 2 ^ q` in units of the last of `places` places, a half rounded up. -/
def units (places m : Nat) (q : Int) : Nat :=
  let num := m * tenTo places * twoTo q.toNat
  let den := twoTo (-q).toNat
  (2 * num + den) / (2 * den)

/-- A count of units of the last place, written with the point. -/
def fixedText (places n : Nat) : String :=
  let fraction := toString (n % tenTo places)
  toString (n / tenTo places) ++ "." ++ zeros (places - fraction.length) ++ fraction

end Decimal

namespace Number
open Float.Model

/-- A number with a set count of places. From `1e21` on, and for infinite or undefined numbers, it
is the plain text of the number. -/
def fixed (places : Nat) (x : Number) : String :=
  match x.unpack with
  | .notANumber | .infinity _ => x.text
  | .zero _ => Decimal.fixedText places 0
  | .finite s m q _ =>
    if tenTo 21 ≤ wholePart m q then x.text
    else
      let magnitude := Decimal.fixedText places (Decimal.units places m q)
      match s with
      | .positive => magnitude
      | .negative => "-" ++ magnitude

end Number

end RadioOccupancy
