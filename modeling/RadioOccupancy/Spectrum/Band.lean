import RadioOccupancy.Decimal.Text

/-!
A frequency band is an inclusive range of sub-band indices.
-/

namespace RadioOccupancy

/-- The sub-bands from `start` to `stop`, both included. -/
structure Band where
  start : Number
  stop : Number
deriving DecidableEq, Repr

namespace Band

/-- Both ends are whole numbers, the first is not negative and the last not below the first. -/
def isValid (b : Band) : Bool :=
  b.start.isInteger && b.stop.isInteger && 0 ≤ b.start && b.start ≤ b.stop

/-- The ends are equal as numbers. A band with an undefined end equals none. -/
def sameEnds (a b : Band) : Bool :=
  a.start == b.start && a.stop == b.stop

/-- The ends name the same key, so that an undefined end matches itself. -/
def sameKey (a b : Band) : Bool :=
  a.start.same b.start && a.stop.same b.stop

/-- A band as it stands in a message. -/
def text (b : Band) : String :=
  "[" ++ b.start.text ++ ", " ++ b.stop.text ++ "]"

/-- A band as it stands in the details of a log entry. -/
def dashed (b : Band) : String :=
  b.start.text ++ "-" ++ b.stop.text

end Band

end RadioOccupancy
