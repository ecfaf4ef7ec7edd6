import RadioOccupancy.Number

/-!
The shortest decimal that reads back as a given binary number.

The reals that round to `m * 2 ^ q` form an interval around it, which reaches halfway to the
neighbour on either side and holds its ends exactly when `m` is even. Among the decimals of one,
two, three … significant digits the first length that has a member in the interval wins, and of two
members the nearer one. On a grid of a given length only the two neighbours of the value can be
nearest, so only those are tried.
-/

namespace RadioOccupancy

/-- The decimal `digits * 10 ^ exponent`. -/
structure Decimal where
  digits : Nat
  exponent : Int
deriving DecidableEq, Repr

namespace Decimal

/-- A positive number `significand * 2 ^ exponent` measured in steps of `10 ^ grid`: it is
`significand * num / den` of them. -/
structure Scale where
  num : Nat
  den : Nat

/-- The scale that measures `m * 2 ^ q` in steps of `10 ^ grid`. -/
def scale (q grid : Int) : Scale where
  num := twoTo q.toNat * tenTo (-grid).toNat
  den := twoTo (-q).toNat * tenTo grid.toNat

/-- Four times the significand of the lower end of the interval that rounds to `m * 2 ^ q`. The gap
below a power of two is half the gap above, except at the least exponent. -/
def lowerEnd (m : Nat) (q : Int) : Nat :=
  if m = twoTo 52 ∧ q ≠ -1074 then 4 * m - 1 else 4 * m - 2

/-- Four times the significand of the upper end of that interval. -/
def upperEnd (m : Nat) : Nat :=
  4 * m + 2

/-- The decimal `c * 10 ^ grid` lies in the interval of the reals that round to `m * 2 ^ q`. -/
def readsBack (m : Nat) (q : Int) (c : Nat) (grid : Int) : Bool :=
  let s := scale (q - 2) grid
  let point := c * s.den
  let low := lowerEnd m q * s.num
  let high := upperEnd m * s.num
  if m % 2 = 0 then low ≤ point && point ≤ high else low < point && point < high

/-- The exponent of the leading decimal digit of `m * 2 ^ q`. Since `0.30103` is a shade above the
common logarithm of two, the estimate is right or one too small. -/
def leadingExponent (m : Nat) (q : Int) : Int :=
  let estimate := (m.log2 + q) * 30103 / 100000
  let s := scale q (estimate + 1)
  if s.den ≤ m * s.num then estimate + 1 else estimate

/-- Of two neighbours `c` and `c + 1` on a grid the one nearer to the value, and halfway between
them the even one. -/
def nearer (m : Nat) (s : Scale) (c : Nat) : Nat :=
  match compare (2 * m * s.num) ((2 * c + 1) * s.den) with
  | .lt => c
  | .gt => c + 1
  | .eq => if c % 2 = 0 then c else c + 1

/-- The decimal on the grid `10 ^ grid` that reads back as `m * 2 ^ q` and is nearest to it. -/
def onGrid? (m : Nat) (q grid : Int) : Option Decimal :=
  let s := scale q grid
  let c := m * s.num / s.den
  match readsBack m q c grid, readsBack m q (c + 1) grid with
  | true, true => some ⟨nearer m s c, grid⟩
  | true, false => some ⟨c, grid⟩
  | false, true => some ⟨c + 1, grid⟩
  | false, false => none

/-- All the digits of `m * 2 ^ q`. -/
def exact (m : Nat) (q : Int) : Decimal :=
  ⟨m * twoTo q.toNat * Nat.pow 5 (-q).toNat, min q 0⟩

/-- The same decimal without zeros at its end. -/
def trim (d : Decimal) : Decimal :=
  if h : d.digits ≠ 0 ∧ d.digits % 10 = 0 then trim ⟨d.digits / 10, d.exponent + 1⟩ else d
termination_by d.digits
decreasing_by exact Nat.div_lt_self (Nat.pos_of_ne_zero h.1) (by decide)

/-- The shortest decimal that reads back as `m * 2 ^ q`, for positive `m`. -/
def shortest (m : Nat) (q : Int) : Decimal :=
  let lead := leadingExponent m q
  let found := (List.range 17).findSome? fun (i : Nat) => onGrid? m q (lead - i)
  (found.getD (exact m q)).trim

end Decimal

end RadioOccupancy
