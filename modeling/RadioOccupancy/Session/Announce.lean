import RadioOccupancy.Session.Basic

/-!
How observers hear of things.

Everything here takes the function by which an observer responds to a call, so that it does not
matter what observers do. Whoever is on a list when a notice begins is called, whatever happens to
the list meanwhile, and the first observer that fails ends the notice and all that comes after it.
-/

namespace RadioOccupancy

namespace Act

/-- How an observer responds when it is called. -/
abbrev Respond := ObserverCall → Act Unit

/-- Calls listeners in turn. -/
def callListeners (respond : Respond) (call : ListenerCall) : List ObserverId → Act Unit
  | [] => return ()
  | id :: rest => do
    respond (.listener id call)
    callListeners respond call rest

/-- Calls a subscriber. A collector adds the event to its totals. -/
def callSubscriber (respond : Respond) (event : TraceEvent) : Subscriber → Act Unit
  | .observer id => respond (.trace id event)
  | .collector index => modifyCollector index fun c => { c with totals := c.totals.add event }

/-- Calls the subscribers of a tracker in turn. A subscription for one event is ended just before
its call and passed over if it has been called before. -/
def callSubscribers (respond : Respond) (index : Nat) (event : TraceEvent) :
    List Subscription → Act Unit
  | [] => return ()
  | e :: rest => do
    match (← tracker index).subscriptions.claim e with
    | some subscriptions =>
      modifyTracker index fun t => { t with subscriptions }
      callSubscriber respond event e.subscriber
    | none => pure ()
    callSubscribers respond index event rest

/-- Emits a trace event and answers whether anyone had subscribed to it. -/
def emit (respond : Respond) (index : Nat) (event : TraceEvent) : Act Bool := do
  let subscribers := (← tracker index).subscriptions.ofKind event.kind
  callSubscribers respond index event subscribers
  return !subscribers.isEmpty

/-- Gives one notice of a tracker. The callbacks are those that `before`, the tracker at the
beginning of the announcement, held. -/
def giveNotice (respond : Respond) (index : Nat) (before : Tracker) : Notice → Act Unit
  | .listeners call => do callListeners respond call (← tracker index).listeners.members
  | .trace event => do
    let _ ← emit respond index event
  | .deliver delivery =>
    match before.callbackFor delivery with
    | some id => respond (.delivery id delivery)
    | none => return ()

/-- Gives notices in turn. -/
def giveNotices (respond : Respond) (index : Nat) (before : Tracker) : List Notice → Act Unit
  | [] => return ()
  | n :: rest => do
    giveNotice respond index before n
    giveNotices respond index before rest

/-- Makes an announcement. While it lasts, the tracker takes no transition. -/
def announce (respond : Respond) (index : Nat) (notices : List Notice) : Act Unit := do
  let before ← tracker index
  modifyTracker index fun t => { t with announcing := t.announcing + 1 }
  ensuring (giveNotices respond index before notices) fun s =>
    s.modifyTracker index fun t => { t with announcing := t.announcing - 1 }

/-- Carries out one step of a plan. -/
def carryOutStep (respond : Respond) (index : Nat) : Step → Act Unit
  | .change c => modifyTracker index fun t => { t with core := c.apply t.core }
  | .announce notices => announce respond index notices
  | .log m => do write (← tracker index).log m

/-- Carries out steps in turn. -/
def carryOutSteps (respond : Respond) (index : Nat) : List Step → Act Unit
  | [] => return ()
  | s :: rest => do
    carryOutStep respond index s
    carryOutSteps respond index rest

/-- Carries out a plan of a tracker. -/
def carryOut {α : Type} (respond : Respond) (index : Nat) (plan : Plan α) : Act α := do
  carryOutSteps respond index plan.steps
  ofExcept (plan.outcome.mapError .refused)

end Act

end RadioOccupancy
