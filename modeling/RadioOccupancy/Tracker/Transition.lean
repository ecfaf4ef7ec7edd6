import RadioOccupancy.Config
import RadioOccupancy.Duration
import RadioOccupancy.Tracker.Report

/-!
The transitions of a radio, and the plan of each.

A transition is checked in full before the radio is touched. Then the states up to its time are
reported, the radio is changed, and the observers are told.
-/

namespace RadioOccupancy

/-- The band on which a request looks at the radio. Without a threshold of its own it uses the one
that is configured. -/
structure Sensing where
  band : Band
  threshold : Option Number := none
deriving DecidableEq, Repr

/-- The threshold that a request uses. -/
def Sensing.thresholdIn (s : Sensing) (config : Config) : Number :=
  s.threshold.getD config.defaultThreshold

/-- A transition of the radio, with the time at which it is requested. -/
inductive Transition where
  | transmit (now duration : Number) (ppdu : Ppdu) (power : Number) (vector : TxVector)
      (on : Sensing)
  | receive (now duration : Number) (on : Sensing)
  | retune (now duration : Number) (on : Sensing)
  /-- one more part of an aggregate was received -/
  | continueReception (now : Number) (psdu : Psdu) (info : SignalInfo) (vector : TxVector)
  | completeReception (now : Number) (psdu : Psdu) (info : SignalInfo) (vector : TxVector)
      (station : Number) (statuses : List Bool)
  | loseReception (now : Number) (psdu : Psdu) (snr : Number)
  /-- nothing is delivered, and listeners hear of it only if it is a failure -/
  | abortReception (now : Number) (failure : Bool)
  /-- energy was detected; listeners hear of it only on the primary channel -/
  | detectEnergy (now duration : Number) (on : Sensing) (isPrimary : Bool)
  | fallAsleep (now : Number) (on : Sensing)
  | wakeUp (now duration : Number) (on : Sensing) (isPrimary : Bool)
  | powerOff (now : Number) (on : Sensing)
  | powerOn (now duration : Number) (on : Sensing) (isPrimary : Bool)
  /-- nothing happens, but states are reported up to now -/
  | flush (now : Number) (on : Sensing)
deriving DecidableEq, Repr

namespace Transition

/-- The name of a transition in messages and answers. -/
def name : Transition → String
  | .transmit .. => "switchToTx"
  | .receive .. => "switchToRx"
  | .retune .. => "switchToChannelSwitching"
  | .continueReception .. => "continueRxNextMpdu"
  | .completeReception .. => "switchFromRxEndOk"
  | .loseReception .. => "switchFromRxEndError"
  | .abortReception .. => "switchFromRxAbort"
  | .detectEnergy .. => "switchMaybeToCcaBusy"
  | .fallAsleep .. => "switchToSleep"
  | .wakeUp .. => "switchFromSleep"
  | .powerOff .. => "switchToOff"
  | .powerOn .. => "switchFromOff"
  | .flush .. => "flushStateTrace"

/-- When a transition is requested. -/
def time : Transition → Number
  | .transmit now .. | .receive now .. | .retune now .. | .continueReception now ..
  | .completeReception now .. | .loseReception now .. | .abortReception now .. | .detectEnergy now ..
  | .fallAsleep now .. | .wakeUp now .. | .powerOff now .. | .powerOn now .. | .flush now .. => now

/-- The band that a transition names, if it names one. -/
def sensing? : Transition → Option Sensing
  | .transmit _ _ _ _ _ on | .receive _ _ on | .retune _ _ on | .detectEnergy _ _ on _
  | .fallAsleep _ on | .wakeUp _ _ on _ | .powerOff _ on | .powerOn _ _ on _ | .flush _ on => some on
  | .continueReception .. | .completeReception .. | .loseReception .. | .abortReception .. => none

end Transition

/-- The latest time that a tracker has acted on. A transition must not be requested before it. -/
def Core.latest (core : Core) : Number :=
  core.record.lastChange.maximum core.cursor

namespace Planning

/-- The checks that all transitions have in common. -/
def checkRequest (x : Transition) : Planning Unit := do
  checkTime x.name x.time
  let last := (← core).latest
  if x.time < last then refuse x.name (.timeWentBack x.time last)
  match x.sensing? with
  | some on => check (on.band.check x.name)
  | none => return ()

/-- The state that the radio shows on a band. -/
def stateOn (now : Number) (band : Band) (threshold : Number) : Planning Radio.State := do
  let core ← core
  check (core.record.stateOn core.table band threshold now)

/-- A transition that is possible only from some states. -/
def demandState (operation : String) (now : Number) (band : Band) (threshold : Number)
    (allowed : List Radio.State) : Planning Unit := do
  let state ← stateOn now band threshold
  if !allowed.contains state then refuse operation (.stateUnmet state allowed)

/-- A transition that is impossible from some states. -/
def forbidStates (operation : String) (now : Number) (band : Band) (threshold : Number)
    (rejected : List Radio.State) : Planning Unit := do
  let state ← stateOn now band threshold
  if rejected.contains state then refuse operation (.stateRejected state)

/-- A transition that ends a reception. -/
def demandReception (operation : String) (now : Number) : Planning Unit := do
  let record := (← core).record
  if !record.hasOpenReception now then refuse operation (.noReception (record.ownState now))

/-- A transition that goes on with a reception, which has to last beyond it. -/
def demandContinuation (operation : String) (now : Number) : Planning Unit := do
  let record := (← core).record
  if !record.hasOpenReception now || record.rx.stop ≤ now then
    refuse operation (.nothingToContinue (record.ownState now))

/-- Logs a transition, if transitions are logged. -/
def noteTransition (config : Config) (operation : String) (now : Number) (duration : Option Number)
    (details : Details) : Planning Unit :=
  if config.verbose then
    let lasting := match duration with
      | some d => " for " ++ Duration.text d
      | none => ""
    log ⟨.debug, "PHY " ++ operation ++ " at " ++ now.text ++ lasting, some details⟩
  else return ()

/-- Logs that a reception goes on, if transitions are logged. -/
def noteContinuation (config : Config) (now : Number) (psdu : Psdu) (info : SignalInfo)
    (vector : TxVector) : Planning Unit :=
  if config.verbose then do
    let mpdus := (← core).mpdus
    log ⟨.debug, "Continuing aggregate reception", some
      [("now", .number now), ("mpdu", .number (Float.ofNat mpdus)),
       ("packets", .number (Float.ofNat psdu.packets.length)), ("snr", .number info.snr),
       ("mode", .text vector.mode)]⟩
  else return ()

/-- Tells the listeners. -/
def tellListeners (method : ListenerMethod) (args : List Number) : Planning Unit :=
  announce [.listeners ⟨method, args⟩]

/-- Records energy on a band. Listeners hear how long it will last when the primary channel turns
from clear to busy. -/
def senseEnergy (config : Config) (now duration : Number) (band : Band) (isPrimary : Bool)
    (threshold : Number) : Planning Unit := do
  let found ← check ((← core).table.detection band threshold now duration)
  if found.isLatest then change (.busy found.entry)
  if config.verbose then
    log ⟨.debug, "CCA busy recorded", some
      [("now", .number now), ("band", .text band.dashed), ("thresholdDbm", .number threshold),
       ("busyEnd", .number found.entry.busyEnd), ("extended", .flag found.isLatest)]⟩
  let remaining := found.entry.busyEnd - now
  if isPrimary && found.isLatest && !found.foundBusy && 0 < remaining then
    tellListeners .ccaBusyStart [remaining]

end Planning

namespace Transition
open Planning

/-- The packet events of a frame that is being sent. -/
def sendingNotices (ppdu : Ppdu) (vector : TxVector) : List Notice :=
  ppdu.packets.map fun packet => .trace (.tx packet vector.mode vector.preamble vector.powerLevel)

/-- The packet events of a received frame: one for each packet that was received well. -/
def receivedNotices (psdu : Psdu) (info : SignalInfo) (vector : TxVector) (statuses : List Bool) :
    List Notice :=
  (psdu.packets.zip statuses).filterMap fun (packet, received) =>
    if received then some (.trace (.rxOk packet info.snr vector.mode vector.preamble)) else none

/-- The packet events of a lost frame. -/
def lostNotices (psdu : Psdu) (snr : Number) : List Notice :=
  psdu.packets.map fun packet => .trace (.rxError packet snr)

/-- What a transition asks of its arguments, apart from its time and its band. -/
def checkArguments (x : Transition) : Planning Unit :=
  match x with
  | .transmit _ duration ppdu power _ _ => do
    checkDuration x.name duration
    if ppdu.parts.isEmpty then refuse x.name .noPsdu
    if !power.isFinite then refuse x.name (.power power)
  | .receive _ duration _ | .retune _ duration _ | .detectEnergy _ duration _ _
  | .wakeUp _ duration _ _ | .powerOn _ duration _ _ => checkDuration x.name duration
  | .completeReception _ psdu _ _ _ statuses =>
    if statuses.length ≠ psdu.packets.length then
      refuse x.name (.statusCount psdu.packets.length statuses.length)
    else return ()
  | .continueReception .. | .loseReception .. | .abortReception .. | .fallAsleep .. | .powerOff ..
  | .flush .. => return ()

/-- What a transition asks of the state of the radio. -/
def checkState (config : Config) (x : Transition) : Planning Unit :=
  match x with
  | .transmit now _ _ _ _ on =>
    forbidStates x.name now on.band (on.thresholdIn config) [.off, .sleep, .rx, .switching]
  | .receive now _ on =>
    demandState x.name now on.band (on.thresholdIn config) [.idle, .ccaBusy]
  | .retune now _ on =>
    forbidStates x.name now on.band (on.thresholdIn config) [.off, .sleep]
  | .detectEnergy now _ on _ | .fallAsleep now on =>
    forbidStates x.name now on.band (on.thresholdIn config) [.off]
  | .wakeUp now _ on _ => demandState x.name now on.band (on.thresholdIn config) [.sleep]
  | .powerOn now _ on _ => demandState x.name now on.band (on.thresholdIn config) [.off]
  | .continueReception now .. => demandContinuation x.name now
  | .completeReception now .. | .loseReception now .. | .abortReception now _ =>
    demandReception x.name now
  | .powerOff .. | .flush .. => return ()

/-- The report of the states up to a transition. The end of a reception reports only what the radio
did by itself, and neither a continued reception nor energy off the primary channel reports
anything. -/
def report (config : Config) : Transition → Planning Unit
  | .transmit now _ _ _ _ on | .receive now _ on | .retune now _ on | .detectEnergy now _ on true
  | .fallAsleep now on | .wakeUp now _ on _ | .powerOff now on | .powerOn now _ on _
  | .flush now on => reportUntil now on.band (on.thresholdIn config)
  | .completeReception now .. | .loseReception now .. | .abortReception now _ => do
    let _ ← reportOwn now
  | .continueReception .. | .detectEnergy _ _ _ false => return ()

/-- What a transition does to the radio, and who is told. -/
def enact (config : Config) (x : Transition) : Planning Unit :=
  match x with
  | .transmit now duration ppdu power vector _ => do
    change (.transmitting now duration)
    noteTransition config x.name now (some duration) []
    announce (sendingNotices ppdu vector ++ [.listeners ⟨.txStart, [duration, power]⟩])
  | .receive now duration _ => do
    change (.receiving now duration)
    noteTransition config x.name now (some duration) []
    tellListeners .rxStart [duration]
  | .retune now duration _ => do
    change (.switching now duration)
    noteTransition config x.name now (some duration) []
    tellListeners .switchingStart [duration]
  | .continueReception now psdu info vector => do
    change .continued
    noteContinuation config now psdu info vector
  | .completeReception now psdu info vector station statuses => do
    change (.closed now)
    noteTransition config x.name now none [("staId", .number station)]
    announce ([.listeners ⟨.rxEndOk, []⟩] ++ receivedNotices psdu info vector statuses ++
      [.deliver (.ok psdu info vector statuses)])
  | .loseReception now psdu snr => do
    change (.closed now)
    noteTransition config x.name now none [("snr", .number snr)]
    announce ([.listeners ⟨.rxEndError, []⟩] ++ lostNotices psdu snr ++ [.deliver (.error psdu)])
  | .abortReception now failure => do
    change (.closed now)
    noteTransition config x.name now none [("failure", .flag failure)]
    if failure then tellListeners .rxEndError []
  | .detectEnergy now duration on isPrimary => do
    senseEnergy config now duration on.band isPrimary (on.thresholdIn config)
    change (.stamped now)
  | .fallAsleep now _ => do
    change (.asleep now)
    noteTransition config x.name now none []
    tellListeners .sleep []
  | .wakeUp now duration on isPrimary => do
    change (.awake now)
    let slept := now - (← core).record.dormantSince
    noteTransition config x.name now (some duration) [("slept", .number slept)]
    tellListeners .wakeup []
    if 0 < duration then senseEnergy config now duration on.band isPrimary (on.thresholdIn config)
  | .powerOff now _ => do
    change (.poweredOff now)
    noteTransition config x.name now none []
    tellListeners .off []
  | .powerOn now duration on isPrimary => do
    change (.poweredOn now)
    let off := now - (← core).record.dormantSince
    noteTransition config x.name now (some duration) [("off", .number off)]
    tellListeners .on []
    if 0 < duration then senseEnergy config now duration on.band isPrimary (on.thresholdIn config)
  | .flush .. => return ()

/-- What a transition does once the common checks have passed. -/
def body (config : Config) (x : Transition) : Planning Unit := do
  x.checkArguments
  x.checkState config
  x.report config
  x.enact config

/-- The plan of a transition on a tracker that is free to take one. -/
def plan (x : Transition) (config : Config) (core : Core) : Plan Unit :=
  Planning.plan (do checkRequest x; x.body config) core

end Transition

end RadioOccupancy
