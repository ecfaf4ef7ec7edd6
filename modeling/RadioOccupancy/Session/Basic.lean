import RadioOccupancy.Session.Request
import RadioOccupancy.Tracker.Basic

/-!
A session holds the trackers, logs and other things that requests are about, and what has been
seen during the current request.

Trackers, logs and collectors are known by their index, which outlives the name they were given: a
collector stays with the tracker it was attached to, and a tracker with its log, when the name is
given to another.
-/

namespace RadioOccupancy

/-- Gathers statistics about the tracker it is attached to. -/
structure Collector where
  log : Nat
  /-- the index of the tracker -/
  tracker : Option Nat := none
  totals : Statistics := {}

/-- The log message of a collector that has been attached. -/
def Collector.attachedMessage : Log.Message where
  level := .debug
  message := "PHY statistics collector attached"

/-- Everything that requests have created so far. -/
structure Session where
  /-- milliseconds from the start of 1970 -/
  clock : Int := 0
  logs : Array Log := #[{}]
  /-- the index of the log that new trackers and collectors write to -/
  currentLog : Nat := 0
  keptLogs : Named Nat := []
  trackers : Array Tracker := #[]
  trackerNames : Named Nat := []
  tables : Named BusyTable := []
  registries : Named ListenerSet := []
  collectors : Array Collector := #[]
  collectorNames : Named Nat := []
  /-- what observers do, under the keys of `scriptKey` -/
  scripts : Named Script := []
  events : Array Event := #[]

/-- An action in a session. What it did before it failed stays done. -/
abbrev Act (α : Type) := ExceptT Fault (StateM Session) α

namespace Session

/-- The key of a script: the name of the observer and the occasion with a blank between them. Names
and occasions that read the same when they are put together share a script. -/
def scriptKey (id : ObserverId) (occasion : String) : String :=
  id ++ " " ++ occasion

/-- The script of an observer for an occasion; without one it does nothing. -/
def scriptFor (s : Session) (id : ObserverId) (occasion : String) : Script :=
  (s.scripts.get? (scriptKey id occasion)).getD []

/-- Sets the script of an observer for an occasion. -/
def setScript (s : Session) (id : ObserverId) (occasion : String) (script : Script) : Session :=
  { s with scripts := s.scripts.set (scriptKey id occasion) script }

/-- Changes a tracker. -/
def modifyTracker (s : Session) (index : Nat) (f : Tracker → Tracker) : Session :=
  { s with trackers := s.trackers.modify index f }

/-- Changes a collector. -/
def modifyCollector (s : Session) (index : Nat) (f : Collector → Collector) : Session :=
  { s with collectors := s.collectors.modify index f }

/-- Adds to what has been seen. -/
def see (s : Session) (e : Event) : Session :=
  { s with events := s.events.push e }

/-- What a tracker shows of itself. -/
def viewOf (t : Tracker) : TrackerView where
  record := t.core.record
  busy := t.core.table.entries
  mpdus := t.core.mpdus
  listeners := t.listeners.size

/-- The view of the tracker that has a name. -/
def view? (s : Session) (name : String) : Option TrackerView := do
  let index ← s.trackerNames.get? name
  let tracker ← s.trackers[index]?
  return viewOf tracker

end Session

namespace Act

/-- Makes a failed computation a failed action. -/
def ofExcept {α : Type} (r : Except Fault α) : Act α :=
  match r with
  | .ok a => return a
  | .error f => throw f

/-- The thing under a name, which has to be there. -/
def named {α : Type} (entries : Named α) (name : String) : Act α :=
  match entries.get? name with
  | some a => return a
  | none => throw (.unknownName name)

/-- The tracker with an index. -/
def tracker (index : Nat) : Act Tracker := do
  match (← get).trackers[index]? with
  | some t => return t
  | none => throw (.unknownName (toString index))

/-- The collector with an index. -/
def collector (index : Nat) : Act Collector := do
  match (← get).collectors[index]? with
  | some c => return c
  | none => throw (.unknownName (toString index))

/-- The log with an index. -/
def logAt (index : Nat) : Act Log := do
  match (← get).logs[index]? with
  | some l => return l
  | none => throw (.unknownName (toString index))

/-- Changes a tracker. -/
def modifyTracker (index : Nat) (f : Tracker → Tracker) : Act Unit :=
  modify fun s => s.modifyTracker index f

/-- Changes a collector. -/
def modifyCollector (index : Nat) (f : Collector → Collector) : Act Unit :=
  modify fun s => s.modifyCollector index f

/-- Replaces a log. -/
def setLog (index : Nat) (l : Log) : Act Unit :=
  modify fun s => { s with logs := s.logs.setIfInBounds index l }

/-- Adds to what has been seen. -/
def see (e : Event) : Act Unit :=
  modify fun s => s.see e

/-- Writes to a log and prints the line if the log does. -/
def write (index : Nat) (m : Log.Message) : Act Unit := do
  let (entry, l) := (← logAt index).write (← get).clock m
  setLog index l
  match entry with
  | some e => see (.logged e.line)
  | none => return ()

/-- Runs an action to its end, whether it fails or not, and then changes the session. -/
def ensuring {α : Type} (x : Act α) (f : Session → Session) : Act α :=
  ExceptT.mk do
    let r ← x.run
    modify f
    return r

/-- Runs an action and answers how it ended. -/
def attempt {α : Type} (x : Act α) : Act (Except Fault α) :=
  ExceptT.mk do
    let r ← x.run
    return .ok r

end Act

end RadioOccupancy
