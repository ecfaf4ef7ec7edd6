import RadioOccupancy.Session.Announce
import RadioOccupancy.Session.Question

/-!
What each request does in a session.
-/

namespace RadioOccupancy

namespace Act

/-- A request to a busy table. -/
def performTable (name : String) : TableRequest → Act Value
  | .create resolution => do
    let table ← ofExcept ((BusyTable.create resolution).mapError .refused)
    modify fun s => { s with tables := s.tables.set name table }
    return .nothing
  | .detect m => do
    let table ← named (← get).tables name
    let (found, table) ←
      ofExcept ((table.detect m.band m.threshold m.now m.duration).mapError .refused)
    modify fun s => { s with tables := s.tables.set name table }
    return .detection found
  | .get band threshold => do
    let table ← named (← get).tables name
    return .busyEntry (← ofExcept ((table.get band threshold).mapError .refused))
  | .isBusyAt band threshold now => do
    let table ← named (← get).tables name
    return .flag (← ofExcept ((table.isBusyAt band threshold now).mapError .refused))
  | .size => return .count (← named (← get).tables name).entries.length
  | .entries => return .busyEntries (← named (← get).tables name).entries

/-- A request to a listener registry. -/
def performRegistry (respond : Respond) (name : String) (r : RegistryRequest) : Act Value := do
  let change (f : ListenerSet → ListenerSet) : Act Unit := do
    let set ← named (← get).registries name
    modify fun s => { s with registries := s.registries.set name (f set) }
  match r with
  | .create =>
    modify fun s => { s with registries := s.registries.set name {} }
    return .nothing
  | .register id =>
    change fun set => set.register id
    return .flag true
  | .unregister id =>
    let present := (← named (← get).registries name).has id
    change fun set => set.unregister id
    return .flag present
  | .has id => return .flag ((← named (← get).registries name).has id)
  | .size => return .count (← named (← get).registries name).size
  | .clear =>
    change fun _ => {}
    return .nothing
  | .notify call =>
    callListeners respond call (← named (← get).registries name).members
    return .nothing

/-- The log that a request is about. -/
def logNamed : Option String → Act Nat
  | some name => do named (← get).keptLogs name
  | none => return (← get).currentLog

/-- Logs the messages of a filling, without printing them. -/
def fillLog (index : Nat) (stem : String) : (count next : Nat) → Act Unit
  | 0, _ => return ()
  | count + 1, next => do
    let (_, l) := (← logAt index).write (← get).clock ⟨.info, stem ++ toString next, none⟩
    setLog index l
    fillLog index stem count (next + 1)

/-- A request to a log. -/
def performLog (name : Option String) (r : LogRequest) : Act Value := do
  let index ← logNamed name
  let l ← logAt index
  match r with
  | .setLevel level =>
    setLog index { l with level }
    return .nothing
  | .getLevel => return .level l.level
  | .setCapacity size =>
    match l.setCapacity? size with
    | some l =>
      setLog index l
      return .nothing
    | none => throw (.logCapacity size)
  | .isEnabled level => return .flag (l.enabled level)
  | .clear =>
    setLog index l.clear
    return .nothing
  | .log m =>
    write index m
    return .nothing
  | .fill count stem =>
    fillLog index stem count 0
    return .nothing
  | .entries => return .logEntries l.entries
  | .entriesAt level => return .logEntries (l.entriesAt level)
  | .summary =>
    return .logSummary
      ⟨l.entries.length, l.entries.head?.map (·.message), l.entries.getLast?.map (·.message)⟩

/-- The configuration of a new tracker. -/
def newConfig (preset : Option String) (overrides : Overrides) : Except Fault Config :=
  match preset with
  | some preset => Config.ofPreset preset overrides
  | none => Config.create overrides

/-- Asks a tracker about a band. -/
def askTracker (respond : Respond) (index : Nat) (question : BandQuestion) (now : Number)
    (on : Sensing) : Act Value := do
  let t ← tracker index
  let plan {α : Type} (p : Planning α) : Plan α := Planning.plan p t.core
  match question with
  | .state => return .state (← carryOut respond index (plan (Query.state t.config now on)))
  | .isState s =>
    return .flag ((← carryOut respond index (plan (Query.state t.config now on))) = s)
  | .timeToIdle =>
    return .number (← carryOut respond index (plan (Query.timeToIdle t.config now on)))
  | .timeSinceBusy =>
    return .number (← carryOut respond index (plan (Query.timeSinceBusy t.config now on)))

/-- Creates a tracker and gives it a name. -/
def createTracker (name : String) (preset : Option String) (overrides : Overrides) : Act Unit := do
  let log := (← get).currentLog
  let config ← ofExcept (newConfig preset overrides)
  let t ← ofExcept (Tracker.create config log)
  write log (Tracker.createdMessage config)
  modify fun s =>
    { s with
      trackers := s.trackers.push t
      trackerNames := s.trackerNames.set name s.trackers.size }

/-- A request to a tracker that exists. -/
def performOnTracker (respond : Respond) (index : Nat) (r : TrackerRequest) : Act Value := do
  let t ← tracker index
  match r with
  | .create .. => return .nothing
  | .register id =>
    modifyTracker index fun t => { t with listeners := t.listeners.register id }
    return .flag true
  | .unregister id =>
    modifyTracker index fun t => { t with listeners := t.listeners.unregister id }
    return .nothing
  | .listenerCount => return .count t.listeners.size
  | .setOkCallback id =>
    modifyTracker index fun t => { t with okCallback := id }
    return .nothing
  | .setErrorCallback id =>
    modifyTracker index fun t => { t with errorCallback := id }
    return .nothing
  | .subscribe kind id once =>
    modifyTracker index fun t =>
      { t with subscriptions := t.subscriptions.add kind (.observer id) once }
    return .nothing
  | .unsubscribe kind id =>
    modifyTracker index fun t =>
      { t with subscriptions := t.subscriptions.remove kind (.observer id) }
    return .nothing
  | .subscriberCount kind => return .count (t.subscriptions.ofKind kind).length
  | .emit event => return .flag (← emit respond index event)
  | .view => return .tracker (Session.viewOf t)
  | .ask question now on => askTracker respond index question now on
  | .transition x =>
    carryOut respond index (t.plan x)
    return .nothing
  | .dispose =>
    if !t.disposed then
      modifyTracker index Tracker.dispose
      write t.log Tracker.disposedMessage
    return .nothing

/-- A request to a tracker. -/
def performTracker (respond : Respond) (name : String) (r : TrackerRequest) : Act Value := do
  match r with
  | .create preset overrides =>
    createTracker name preset overrides
    return .nothing
  | r => performOnTracker respond (← named (← get).trackerNames name) r

/-- Ends the subscriptions of a collector to its tracker. -/
def detach (index : Nat) : Act Unit := do
  match (← collector index).tracker with
  | some t =>
    for kind in TraceKind.all do
      modifyTracker t fun t =>
        { t with subscriptions := t.subscriptions.remove kind (.collector index) }
    modifyCollector index fun c => { c with tracker := none }
  | none => return ()

/-- Subscribes a collector to a tracker, and to no other. -/
def attach (index tracker : Nat) : Act Unit := do
  detach index
  modifyCollector index fun c => { c with tracker := some tracker }
  for kind in TraceKind.all do
    modifyTracker tracker fun t =>
      { t with subscriptions := t.subscriptions.add kind (.collector index) false }
  write (← collector index).log Collector.attachedMessage

/-- A request to a collector of statistics. -/
def performCollector (name : String) (r : CollectorRequest) : Act Value := do
  match r with
  | .create =>
    modify fun s =>
      { s with
        collectors := s.collectors.push { log := s.currentLog }
        collectorNames := s.collectorNames.set name s.collectors.size }
    return .nothing
  | r =>
    let index ← named (← get).collectorNames name
    let c ← collector index
    match r with
    | .create => return .nothing
    | .attach t =>
      attach index (← named (← get).trackerNames t)
      return .nothing
    | .detach =>
      detach index
      return .nothing
    | .reset =>
      modifyCollector index fun c => { c with totals := {} }
      return .nothing
    | .isAttached => return .flag c.tracker.isSome
    | .occupancy => return .number (← ofExcept c.totals.occupancy)
    | .totals => return .statistics c.totals

/-- Carries out a request. -/
def perform (respond : Respond) : Request → Act Value
  | .ask q => ofExcept q.answer
  | .table name r => performTable name r
  | .registry name r => performRegistry respond name r
  | .setClock ms => do
    modify fun s => { s with clock := ms }
    return .nothing
  | .keepLog name => do
    modify fun s => { s with keptLogs := s.keptLogs.set name s.currentLog }
    return .nothing
  | .isCurrentLog name => do
    let index ← named (← get).keptLogs name
    return .flag ((← get).currentLog = index)
  | .resetLog => do
    modify fun s =>
      { s with
        logs := s.logs.push {}
        currentLog := s.logs.size }
    return .nothing
  | .log name r => performLog name r
  | .tracker name r => performTracker respond name r
  | .collector name r => performCollector name r
  | .script id occasion steps => do
    modify fun s => s.setScript id occasion steps
    return .nothing
  | .raise message => throw (.thrown message)

end Act

end RadioOccupancy
