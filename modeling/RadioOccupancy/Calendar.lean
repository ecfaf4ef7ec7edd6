/-!
Timestamps count milliseconds from the start of 1970 and are written as a date and a time of day in
the proleptic Gregorian calendar.

The calendar is counted in eras of 400 years, each of 146097 days, from the first of March of the
year 0, so that the day a leap year adds is the last of its year.
-/

namespace RadioOccupancy

/-- A day of the calendar. -/
structure Date where
  year : Int
  month : Nat
  day : Nat
deriving DecidableEq, Repr

namespace Date

/-- Days from the first of March of the year 0 to the first of January 1970. -/
def epochOffset : Int := 719468

/-- Days in an era of 400 years. -/
def daysPerEra : Int := 146097

/-- The year within its era that a day of the era belongs to, both counted from zero: a leap day
comes every 4 years, not every 100, and every 400. -/
def yearOfEra (dayOfEra : Nat) : Nat :=
  (dayOfEra - dayOfEra / 1460 + dayOfEra / 36524 - dayOfEra / 146096) / 365

/-- The date so many days after the first of January 1970. -/
def ofEpochDay (n : Int) : Date :=
  let days := n + epochOffset
  let era := days / daysPerEra
  let dayOfEra := (days % daysPerEra).toNat
  let year := yearOfEra dayOfEra
  let dayOfYear := dayOfEra - (365 * year + year / 4 - year / 100)
  -- the months from March to January come in runs of 31, 30, 31, 30, 31 days
  let marchMonth := (5 * dayOfYear + 2) / 153
  let day := dayOfYear - (153 * marchMonth + 2) / 5 + 1
  let month := if marchMonth < 10 then marchMonth + 3 else marchMonth - 9
  ⟨year + era * 400 + (if month ≤ 2 then 1 else 0), month, day⟩

/-- A count in decimal, filled up with zeros to a width. -/
def padded (width n : Nat) : String :=
  let digits := toString n
  String.ofList (List.replicate (width - digits.length) '0') ++ digits

/-- A year of four digits, or of six digits and a sign outside the years 0 to 9999. -/
def yearText (year : Int) : String :=
  if 0 ≤ year && year ≤ 9999 then padded 4 year.toNat
  else (if year < 0 then "-" else "+") ++ padded 6 year.natAbs

/-- Year, month and day. -/
def text (d : Date) : String :=
  yearText d.year ++ "-" ++ padded 2 d.month ++ "-" ++ padded 2 d.day

end Date

namespace Timestamp

/-- Milliseconds in a day. -/
def millisPerDay : Int := 86400000

/-- Hours, minutes, seconds and milliseconds of a time of day. -/
def timeOfDayText (millis : Nat) : String :=
  Date.padded 2 (millis / 3600000) ++ ":" ++ Date.padded 2 (millis / 60000 % 60) ++ ":" ++
    Date.padded 2 (millis / 1000 % 60) ++ "." ++ Date.padded 3 (millis % 1000)

/-- The date and the time of day of a timestamp, in universal time. -/
def text (millis : Int) : String :=
  (Date.ofEpochDay (millis / millisPerDay)).text ++ "T" ++
    timeOfDayText (millis % millisPerDay).toNat ++ "Z"

end Timestamp

end RadioOccupancy
