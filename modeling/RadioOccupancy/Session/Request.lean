import RadioOccupancy.Session.Reply
import RadioOccupancy.Spectrum.Channel
import RadioOccupancy.Tracker.Transition

/-!
Everything that can be requested in a session. Requests name the trackers, tables, listener
registries, logs and collectors that they are about.
-/

namespace RadioOccupancy

/-- A busy period to be recorded. -/
structure Mark where
  band : Band
  threshold : Number
  now : Number
  duration : Number

/-- A record and a busy table to be looked at. -/
structure Situation where
  record : Record := {}
  resolution : Number := Threshold.defaultResolution
  marks : List Mark := []
  band : Band
  threshold : Number
  now : Number

/-- A question that is answered from its arguments alone. -/
inductive Question where
  | isTime (x : Number)
  | clamp (x low high : Number)
  | durationText (d : Number)
  | thresholdSteps (threshold resolution : Number)
  | checkBand (band : Band) (operation : String)
  | isWidth (width : Number)
  | segment (channel width index spacing : Number)
  | primarySegment (channel index spacing : Number)
  | segments (channel width spacing : Number)
  | sameBand (a b : Band)
  | constants
  | createConfig (overrides : Overrides)
  | presetConfig (name : String) (overrides : Overrides)
  | presetNames
  | checkConfig (config : Config)
  | state (s : Situation)
  | timeToIdle (s : Situation)
  | timeSinceBusy (s : Situation)

/-- The name of a question. -/
def Question.name : Question → String
  | .isTime _ => "isNonNegativeFinite"
  | .clamp .. => "clamp"
  | .durationText _ => "formatDuration"
  | .thresholdSteps .. => "quantizeThreshold"
  | .checkBand .. => "validateBand"
  | .isWidth _ => "isChannelWidth"
  | .segment .. => "getBand"
  | .primarySegment .. => "getPrimaryBand"
  | .segments .. => "getBandsOfWidth"
  | .sameBand .. => "bandsEqual"
  | .constants => "constants"
  | .createConfig _ => "config.create"
  | .presetConfig .. => "config.preset"
  | .presetNames => "config.presets"
  | .checkConfig _ => "config.validate"
  | .state _ => "deriveState"
  | .timeToIdle _ => "delayUntilIdle"
  | .timeSinceBusy _ => "delaySinceIdle"

/-- A request to a busy table. -/
inductive TableRequest where
  | create (resolution : Number)
  | detect (mark : Mark)
  | get (band : Band) (threshold : Number)
  | isBusyAt (band : Band) (threshold now : Number)
  | size
  | entries

/-- The name of a request to a busy table. -/
def TableRequest.name : TableRequest → String
  | .create _ => "table.new"
  | .detect _ => "table.markBusy"
  | .get .. => "table.get"
  | .isBusyAt .. => "table.isBusy"
  | .size => "table.size"
  | .entries => "table.entries"

/-- A request to a listener registry. -/
inductive RegistryRequest where
  | create
  | register (id : ObserverId)
  | unregister (id : ObserverId)
  | has (id : ObserverId)
  | size
  | clear
  | notify (call : ListenerCall)

/-- The name of a request to a listener registry. -/
def RegistryRequest.name : RegistryRequest → String
  | .create => "registry.new"
  | .register _ => "registry.register"
  | .unregister _ => "registry.unregister"
  | .has _ => "registry.has"
  | .size => "registry.size"
  | .clear => "registry.clear"
  | .notify _ => "registry.notify"

/-- A request to a log. -/
inductive LogRequest where
  | setLevel (level : Severity)
  | getLevel
  | setCapacity (size : Number)
  | isEnabled (level : Severity)
  | clear
  | log (m : Log.Message)
  /-- logs numbered messages without printing them -/
  | fill (count : Nat) (stem : String)
  | entries
  | entriesAt (level : Severity)
  | summary

/-- The name of a request to a log. -/
def LogRequest.name : LogRequest → String
  | .setLevel _ => "logger.setLevel"
  | .getLevel => "logger.getLevel"
  | .setCapacity _ => "logger.setMax"
  | .isEnabled _ => "logger.isEnabled"
  | .clear => "logger.clear"
  | .log _ => "logger.log"
  | .fill .. => "logger.fill"
  | .entries => "logger.logs"
  | .entriesAt _ => "logger.byLevel"
  | .summary => "logger.summary"

/-- What a tracker can be asked about a band. -/
inductive BandQuestion where
  | state
  | isState (s : Radio.State)
  | timeToIdle
  | timeSinceBusy

/-- The name of a question about a band. -/
def BandQuestion.name : BandQuestion → String
  | .state => "getState"
  | .isState .idle => "isStateIdle"
  | .isState .ccaBusy => "isStateCcaBusy"
  | .isState .tx => "isStateTx"
  | .isState .rx => "isStateRx"
  | .isState .switching => "isStateSwitching"
  | .isState .sleep => "isStateSleep"
  | .isState .off => "isStateOff"
  | .timeToIdle => "getDelayUntilIdle"
  | .timeSinceBusy => "getDelaySinceIdle"

/-- A request to a tracker. -/
inductive TrackerRequest where
  | create (preset : Option String) (overrides : Overrides)
  | register (id : ObserverId)
  | unregister (id : ObserverId)
  | listenerCount
  | setOkCallback (id : Option ObserverId)
  | setErrorCallback (id : Option ObserverId)
  | subscribe (kind : TraceKind) (id : ObserverId) (once : Bool)
  | unsubscribe (kind : TraceKind) (id : ObserverId)
  | subscriberCount (kind : TraceKind)
  | emit (event : TraceEvent)
  | view
  | ask (question : BandQuestion) (now : Number) (on : Sensing)
  | transition (x : Transition)
  | dispose

namespace TrackerRequest

/-- The name of a request to a tracker. -/
def name : TrackerRequest → String
  | .create .. => "new"
  | .register _ => "registerListener"
  | .unregister _ => "unregisterListener"
  | .listenerCount => "listenerCount"
  | .setOkCallback _ => "setOkCallback"
  | .setErrorCallback _ => "setErrorCallback"
  | .subscribe _ _ true => "once"
  | .subscribe _ _ false => "on"
  | .unsubscribe .. => "off"
  | .subscriberCount _ => "subscriberCount"
  | .emit _ => "emit"
  | .view => "state"
  | .ask question _ _ => question.name
  | .transition x => x.name
  | .dispose => "dispose"

/-- The request is answered with the tracker as it is afterwards. -/
def showsTracker : TrackerRequest → Bool
  | .transition _ | .dispose => true
  | _ => false

end TrackerRequest

/-- A request to a collector of statistics. -/
inductive CollectorRequest where
  | create
  | attach (tracker : String)
  | detach
  | reset
  | isAttached
  | occupancy
  | totals

/-- The name of a request to a collector of statistics. -/
def CollectorRequest.name : CollectorRequest → String
  | .create => "stats.new"
  | .attach _ => "stats.attach"
  | .detach => "stats.detach"
  | .reset => "stats.reset"
  | .isAttached => "stats.isAttached"
  | .occupancy => "stats.ratio"
  | .totals => "stats.get"

/-- A request that an observer makes when it is called. -/
structure Scripted (Request : Type) where
  request : Request
  /-- if the request fails, the observer fails with it -/
  rethrow : Bool

/-- A request in a session. -/
inductive Request where
  | ask (q : Question)
  | table (name : String) (r : TableRequest)
  | registry (name : String) (r : RegistryRequest)
  | setClock (ms : Int)
  | keepLog (name : String)
  | isCurrentLog (name : String)
  | resetLog
  /-- to a kept log, or to the current one -/
  | log (name : Option String) (r : LogRequest)
  | tracker (name : String) (r : TrackerRequest)
  | collector (name : String) (r : CollectorRequest)
  /-- sets what an observer does on an occasion -/
  | script (id : ObserverId) (occasion : String) (steps : List (Scripted Request))
  /-- fails -/
  | raise (message : String)

/-- The name of a request. -/
def Request.name : Request → String
  | .ask q => q.name
  | .table _ r => r.name
  | .registry _ r => r.name
  | .setClock _ => "clock"
  | .keepLog _ => "logger.keep"
  | .isCurrentLog _ => "logger.isCurrent"
  | .resetLog => "logger.reset"
  | .log _ r => r.name
  | .tracker _ r => r.name
  | .collector _ r => r.name
  | .script .. => "handler"
  | .raise _ => "throw"

/-- What an observer does when it is called. -/
abbrev Script := List (Scripted Request)

end RadioOccupancy
