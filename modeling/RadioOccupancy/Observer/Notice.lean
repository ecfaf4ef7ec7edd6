import RadioOccupancy.Frame
import RadioOccupancy.Radio.State

/-!
What a radio tells its observers: calls to listeners, trace events to subscribers, and the delivery
of received frames to a callback.
-/

namespace RadioOccupancy

/-- What a listener can be told. -/
inductive ListenerMethod where
  | rxStart
  | rxEndOk
  | rxEndError
  | txStart
  | ccaBusyStart
  | switchingStart
  | sleep
  | off
  | wakeup
  | on
deriving DecidableEq, Repr

namespace ListenerMethod

/-- All the methods of a listener. -/
def all : List ListenerMethod :=
  [.rxStart, .rxEndOk, .rxEndError, .txStart, .ccaBusyStart, .switchingStart, .sleep, .off, .wakeup,
   .on]

/-- The name of a method in events. -/
def name : ListenerMethod → String
  | .rxStart => "onRxStart"
  | .rxEndOk => "onRxEndOk"
  | .rxEndError => "onRxEndError"
  | .txStart => "onTxStart"
  | .ccaBusyStart => "onCcaBusyStart"
  | .switchingStart => "onSwitchingStart"
  | .sleep => "onSleep"
  | .off => "onOff"
  | .wakeup => "onWakeup"
  | .on => "onOn"

end ListenerMethod

/-- A call to a listener with the numbers that go with it. -/
structure ListenerCall where
  method : ListenerMethod
  args : List Number := []
deriving DecidableEq, Repr

/-- The kinds of trace events. -/
inductive TraceKind where
  | stateChange
  | tx
  | rxOk
  | rxError
deriving DecidableEq, Repr

namespace TraceKind

/-- All the kinds of trace events. -/
def all : List TraceKind :=
  [.stateChange, .tx, .rxOk, .rxError]

/-- The name of a kind in events. -/
def name : TraceKind → String
  | .stateChange => "stateChange"
  | .tx => "tx"
  | .rxOk => "rxOk"
  | .rxError => "rxError"

end TraceKind

/-- A trace event. -/
inductive TraceEvent where
  /-- the radio was in a state for a while -/
  | stateChange (start duration : Number) (state : Radio.State)
  /-- a packet is being sent -/
  | tx (packet : Packet) (mode : String) (preamble : Preamble) (powerLevel : Number)
  /-- a packet was received -/
  | rxOk (packet : Packet) (snr : Number) (mode : String) (preamble : Preamble)
  /-- a packet was lost -/
  | rxError (packet : Packet) (snr : Number)
deriving DecidableEq, Repr

/-- The kind of a trace event. -/
def TraceEvent.kind : TraceEvent → TraceKind
  | .stateChange .. => .stateChange
  | .tx .. => .tx
  | .rxOk .. => .rxOk
  | .rxError .. => .rxError

/-- What ends a reception for the upper layers. -/
inductive Delivery where
  | ok (psdu : Psdu) (info : SignalInfo) (vector : TxVector) (statuses : List Bool)
  | error (psdu : Psdu)
deriving DecidableEq, Repr

/-- One thing that a radio tells some of its observers. -/
inductive Notice where
  /-- every listener -/
  | listeners (call : ListenerCall)
  /-- every subscriber to the kind of event -/
  | trace (event : TraceEvent)
  /-- the callback for received or lost frames, whichever was set when the notices began -/
  | deliver (delivery : Delivery)
deriving DecidableEq, Repr

end RadioOccupancy
