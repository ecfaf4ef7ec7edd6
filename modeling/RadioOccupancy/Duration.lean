import RadioOccupancy.Decimal.Fixed

/-!
Durations are counted in nanoseconds and shown to people in the largest of the units second,
millisecond and microsecond that they reach, with three places, or else as plain nanoseconds.
-/

namespace RadioOccupancy

/-- A unit in which a duration can be shown. -/
structure TimeUnit where
  symbol : String
  nanoseconds : Number

namespace Duration

/-- The units above the nanosecond, largest first. -/
def units : List TimeUnit :=
  [⟨"s", 1e9⟩, ⟨"ms", 1e6⟩, ⟨"us", 1e3⟩]

/-- The largest unit that a duration reaches on either side of zero. -/
def unit? (d : Number) : Option TimeUnit :=
  units.find? fun u => u.nanoseconds ≤ d.abs

/-- The text of a duration. Infinite and undefined durations have no unit. -/
def text (d : Number) : String :=
  if d.isFinite then
    match unit? d with
    | some u => (d / u.nanoseconds).fixed 3 ++ u.symbol
    | none => d.text ++ "ns"
  else d.text

end Duration

end RadioOccupancy
