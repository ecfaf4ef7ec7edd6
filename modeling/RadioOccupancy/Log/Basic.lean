import RadioOccupancy.Calendar
import RadioOccupancy.Log.Detail

/-!
A log prints the entries whose severity reaches its level and keeps the latest of them.

The kept entries are always a suffix of the entries that were printed since the last clearing, never
longer than the capacity. Lowering the capacity drops the oldest entries, and raising it brings none
of them back.
-/

namespace RadioOccupancy

/-- How much an entry matters. -/
inductive Severity where
  | debug
  | info
  | warn
  | error
deriving DecidableEq, Repr

namespace Severity

/-- Severities are ordered by rank. -/
def rank : Severity → Nat
  | .debug => 0
  | .info => 1
  | .warn => 2
  | .error => 3

/-- The name of a severity in a printed line. -/
def name : Severity → String
  | .debug => "DEBUG"
  | .info => "INFO"
  | .warn => "WARN"
  | .error => "ERROR"

end Severity

/-- What is written to a log. -/
structure Log.Message where
  level : Severity
  message : String
  details : Option Details := none

/-- A message with the time at which it was logged. -/
structure Log.Entry extends Log.Message where
  /-- milliseconds from the start of 1970 -/
  timestamp : Int

/-- The printed line of an entry. -/
def Log.Entry.line (e : Log.Entry) : String :=
  let details := match e.details with
    | some ds => " " ++ ds.text
    | none => ""
  "[" ++ Timestamp.text e.timestamp ++ "] " ++ e.level.name ++ ": " ++ e.message ++ details

/-- A level, a capacity and the kept entries, oldest first. -/
structure Log where
  level : Severity := .info
  capacity : Nat := 1000
  entries : List Log.Entry := []

namespace Log

/-- Entries of a severity are printed and kept. -/
def enabled (l : Log) (level : Severity) : Bool :=
  l.level.rank ≤ level.rank

/-- Drops the oldest entries beyond the capacity. -/
def trimmed (l : Log) : Log :=
  { l with entries := l.entries.drop (l.entries.length - l.capacity) }

/-- Writes a message. The entry comes back if its severity is enabled, so that it was kept and is to
be printed. -/
def write (l : Log) (timestamp : Int) (m : Log.Message) : Option Log.Entry × Log :=
  if l.enabled m.level then
    let entry : Log.Entry := { m with timestamp }
    (some entry, { l with entries := l.entries ++ [entry] }.trimmed)
  else (none, l)

/-- A capacity is a positive whole number. -/
def capacityOf? (x : Number) : Option Nat :=
  match x.toInt? with
  | some n => if 1 ≤ n then some n.toNat else none
  | none => none

/-- Changes the capacity; a size that is no capacity changes nothing. -/
def setCapacity? (l : Log) (size : Number) : Option Log :=
  (capacityOf? size).map fun n => { l with capacity := n }.trimmed

/-- Forgets the kept entries. -/
def clear (l : Log) : Log :=
  { l with entries := [] }

/-- The kept entries of one severity. -/
def entriesAt (l : Log) (level : Severity) : List Log.Entry :=
  l.entries.filter fun e => e.level = level

end Log

end RadioOccupancy
