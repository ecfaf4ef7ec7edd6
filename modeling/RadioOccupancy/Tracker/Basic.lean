import RadioOccupancy.Observer.Subscriptions
import RadioOccupancy.Tracker.Query

/-!
A tracker follows one radio: it plans the transitions of the radio, remembers what the radio has been
told, and knows who is to hear of it.

A tracker takes a transition only while it is not telling its observers of another one, and none
after it has been disposed of.
-/

namespace RadioOccupancy

/-- The tracker of a radio. -/
structure Tracker where
  config : Config
  /-- which log the tracker writes to -/
  log : Nat
  core : Core
  listeners : ListenerSet := {}
  /-- who gets received frames -/
  okCallback : Option ObserverId := none
  /-- who gets lost frames -/
  errorCallback : Option ObserverId := none
  subscriptions : Subscriptions := {}
  /-- how many announcements of the tracker's own are under way -/
  announcing : Nat := 0
  disposed : Bool := false

namespace Tracker

/-- The log message of a new tracker. -/
def createdMessage (config : Config) : Log.Message where
  level := .info
  message := "PhyStateHelper initialized"
  details := some
    [("thresholdResolutionDbm", .number config.thresholdResolution),
     ("defaultCcaThresholdDbm", .number config.defaultThreshold)]

/-- The log message of a tracker that is being disposed of. -/
def disposedMessage : Log.Message where
  level := .info
  message := "PhyStateHelper disposed"

/-- A tracker of a radio that has done nothing yet. -/
def create (config : Config) (log : Nat) : Except Fault Tracker := do
  let table ← (BusyTable.create config.thresholdResolution).mapError .refused
  return { config, log, core := { table } }

/-- Why a tracker takes no transition at all, if it does not. -/
def unavailable? (t : Tracker) : Option Cause :=
  if t.disposed then some .disposed
  else if t.announcing ≠ 0 then some .reentrant
  else none

/-- The plan of a transition. -/
def plan (t : Tracker) (x : Transition) : Plan Unit :=
  match t.unavailable? with
  | some cause => Planning.plan (Planning.refuse x.name cause) t.core
  | none => x.plan t.config t.core

/-- The callback that a delivery goes to. -/
def callbackFor (t : Tracker) : Delivery → Option ObserverId
  | .ok .. => t.okCallback
  | .error _ => t.errorCallback

/-- Lets go of all observers for good. -/
def dispose (t : Tracker) : Tracker :=
  { t with
    listeners := {}
    okCallback := none
    errorCallback := none
    subscriptions := t.subscriptions.clear
    disposed := true }

end Tracker

end RadioOccupancy
