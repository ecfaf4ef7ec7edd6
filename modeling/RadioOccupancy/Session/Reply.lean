import RadioOccupancy.Config
import RadioOccupancy.Log.Basic
import RadioOccupancy.Observer.ListenerSet
import RadioOccupancy.Radio.BandState
import RadioOccupancy.Spectrum.Channel
import RadioOccupancy.Statistics

/-!
What a request is answered with, and what is seen happening meanwhile.
-/

namespace RadioOccupancy

/-- What a tracker shows of itself. -/
structure TrackerView where
  record : Record
  busy : List BusyEntry
  mpdus : Nat
  listeners : Nat

/-- The names and settings that never change. -/
structure Constants where
  channelWidths : List Number := Channel.widths
  defaultSpacing : Number := Channel.defaultSpacing
  radioStates : List Radio.State := Radio.State.all
  preambles : List Preamble := Preamble.all
  presets : Named Overrides := Config.presets

/-- How many entries a log holds, and the first and last of their messages. -/
structure Log.Summary where
  count : Nat
  first : Option String
  last : Option String

/-- The value of an answer. -/
inductive Value where
  | nothing
  | flag (b : Bool)
  | number (x : Number)
  | count (n : Nat)
  | text (s : String)
  | texts (xs : List String)
  | state (s : Radio.State)
  | level (l : Severity)
  | band (b : Band)
  | bands (bs : List Band)
  | busyEntry (e : Option BusyEntry)
  | busyEntries (es : List BusyEntry)
  | detection (d : Detection)
  | config (c : Config)
  | constants (c : Constants)
  | logEntries (es : List Log.Entry)
  | logSummary (s : Log.Summary)
  | tracker (v : TrackerView)
  | statistics (s : Statistics)

/-- The answer to a request. A transition is answered with the tracker as it is afterwards, too. -/
structure Reply where
  result : Except Fault Value
  tracker : Option TrackerView := none

/-- A call to an observer. -/
inductive ObserverCall where
  | listener (id : ObserverId) (call : ListenerCall)
  | trace (id : ObserverId) (event : TraceEvent)
  | delivery (id : ObserverId) (delivery : Delivery)

/-- The callback that gets a delivery. -/
def Delivery.callbackName : Delivery → String
  | .ok .. => "rxOkCallback"
  | .error _ => "rxErrorCallback"

namespace ObserverCall

/-- Who is called. -/
def id : ObserverCall → ObserverId
  | .listener id .. | .trace id .. | .delivery id .. => id

/-- On what occasion an observer is called. -/
def occasion : ObserverCall → String
  | .listener _ call => call.method.name
  | .trace _ event => event.kind.name
  | .delivery _ d => d.callbackName

end ObserverCall

/-- Something that is seen while a request is carried out. -/
inductive Event where
  /-- a line was printed -/
  | logged (line : String)
  | called (call : ObserverCall)
  /-- a request made by an observer was answered -/
  | nested (request : String) (reply : Reply)

end RadioOccupancy
