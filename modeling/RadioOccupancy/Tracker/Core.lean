import RadioOccupancy.Radio.BandState

/-!
What a tracker remembers about its radio, and the ways in which that can change.

The changes are data. A transition is a list of them, some of them before and some after observers
are told, so what a tracker remembers when an observer stops a transition is what a part of the list
makes of it.
-/

namespace RadioOccupancy

/-- What a tracker remembers about its radio. -/
structure Core where
  record : Record := {}
  table : BusyTable
  /-- the time up to which states have been reported -/
  cursor : Number := 0
  /-- the parts of an aggregate that were continued in the latest reception -/
  mpdus : Nat := 0
deriving DecidableEq, Repr

/-- One change of what a tracker remembers. -/
inductive Change where
  /-- states have been reported up to `t` -/
  | reported (t : Number)
  /-- a transmission begins, and no reception is open any more -/
  | transmitting (now duration : Number)
  /-- a reception begins -/
  | receiving (now duration : Number)
  /-- the radio begins to switch channels -/
  | switching (now duration : Number)
  /-- one more part of an aggregate was received -/
  | continued
  /-- the open reception ends at `now` -/
  | closed (now : Number)
  /-- an entry of the busy table is set -/
  | busy (entry : BusyEntry)
  /-- a transition took place at `now` -/
  | stamped (now : Number)
  | asleep (now : Number)
  | awake (now : Number)
  | poweredOff (now : Number)
  | poweredOn (now : Number)
deriving DecidableEq, Repr

namespace Change

/-- The record after a change. -/
def applyToRecord : Change → Record → Record
  | .transmitting now duration, r =>
    { r with tx := .lasting now duration, receiving := false, lastChange := now }
  | .receiving now duration, r =>
    { r with rx := .lasting now duration, receiving := true, lastChange := now }
  | .switching now duration, r =>
    { r with switching := .lasting now duration, lastChange := now }
  | .closed now, r =>
    { r with rx := ⟨r.rx.start, now⟩, receiving := false, lastChange := now }
  | .stamped now, r => { r with lastChange := now }
  | .asleep now, r =>
    { r with
      dormantSince := if r.sleeping then r.dormantSince else now
      sleeping := true
      lastChange := now }
  | .awake now, r => { r with sleeping := false, lastChange := now }
  | .poweredOff now, r =>
    { r with
      dormantSince := if r.poweredOff then r.dormantSince else now
      sleeping := false
      poweredOff := true
      lastChange := now }
  | .poweredOn now, r => { r with poweredOff := false, lastChange := now }
  | .reported _, r | .continued, r | .busy _, r => r

/-- The busy table after a change. -/
def applyToTable : Change → BusyTable → BusyTable
  | .busy entry, t => t.put entry
  | _, t => t

/-- The count of continued parts after a change. -/
def applyToMpdus : Change → Nat → Nat
  | .receiving _ _, _ => 0
  | .continued, n => n + 1
  | _, n => n

/-- The cursor after a change. -/
def applyToCursor : Change → Number → Number
  | .reported t, _ => t
  | _, t => t

/-- What a tracker remembers after a change. -/
def apply (c : Change) (core : Core) : Core where
  record := c.applyToRecord core.record
  table := c.applyToTable core.table
  cursor := c.applyToCursor core.cursor
  mpdus := c.applyToMpdus core.mpdus

end Change

end RadioOccupancy
