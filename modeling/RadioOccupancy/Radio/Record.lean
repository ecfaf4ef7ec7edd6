import RadioOccupancy.Radio.State
import RadioOccupancy.Number

/-!
What a radio has been told: two power flags, an open reception, and the intervals of its own latest
activities.

From the record alone follows the state the radio is in by itself, before energy on any band is
considered. Power off masks sleep, sleep masks the radio's own activities, and of those switching
masks transmitting and transmitting masks receiving.
-/

namespace RadioOccupancy

/-- A stretch of time from `start` up to and not including `stop`. -/
structure Interval where
  start : Number := 0
  stop : Number := 0
deriving DecidableEq, Repr

namespace Interval

/-- The interval of a duration from `now`. -/
def lasting (now duration : Number) : Interval :=
  ⟨now, now + duration⟩

/-- The interval has begun by the instant `t` and runs on after it. -/
def isRunning (i : Interval) (t : Number) : Bool :=
  t < i.stop && i.start ≤ t

end Interval

/-- The flags and timestamps from which the state is derived. -/
structure Record where
  sleeping : Bool := false
  poweredOff : Bool := false
  /-- a reception has begun and has not been ended -/
  receiving : Bool := false
  tx : Interval := {}
  rx : Interval := {}
  switching : Interval := {}
  /-- when the radio last fell asleep or was powered off -/
  dormantSince : Number := 0
  /-- the time of the latest transition -/
  lastChange : Number := 0
deriving DecidableEq, Repr

/-- An interval of the radio's own activity and the state it stands for. -/
structure Activity where
  interval : Interval
  state : Radio.State
deriving DecidableEq, Repr

namespace Record

/-- The radio's own activities, those that mask others first. -/
def activities (r : Record) : List Activity :=
  [⟨r.switching, .switching⟩, ⟨r.tx, .tx⟩, ⟨r.rx, .rx⟩]

/-- The state that masks all activity, if the radio is off or asleep. -/
def powerState? (r : Record) : Option Radio.State :=
  if r.poweredOff then some .off
  else if r.sleeping then some .sleep
  else none

/-- The first of the radio's own activities that has not ended at `now`. -/
def activity? (r : Record) (now : Number) : Option Radio.State :=
  (r.activities.find? fun a => now < a.interval.stop).map Activity.state

/-- The state the radio is in by itself, if it is not idle. -/
def ownState? (r : Record) (now : Number) : Option Radio.State :=
  r.powerState? <|> r.activity? now

/-- The state of the radio where no energy is considered. -/
def ownState (r : Record) (now : Number) : Radio.State :=
  (r.ownState? now).getD .idle

/-- A reception can be continued or ended while it is open and has not run past its end, unless
switching, transmitting, sleep or power off masks it. -/
def hasOpenReception (r : Record) (now : Number) : Bool :=
  r.receiving && !(r.rx.stop < now) && (r.ownState now == .rx || r.ownState now == .idle)

end Record

end RadioOccupancy
