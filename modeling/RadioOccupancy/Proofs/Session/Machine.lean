import Mathlib.Logic.Relation
import RadioOccupancy.Proofs.Session.Frame

/-!
Requests taken apart into steps.

    script [transmit, …], reply, answer
    steps [change, announce], reply, script […], reply, answer
    steps [announce], reply, script […], reply, answer
    notices [listeners], end, steps [], reply, script […], reply, answer
    listeners [mac, app], notices [], end, steps [], …
    call mac, listeners [app], notices [], end, …
    script [attach, …], listeners [app], notices [], end, …

`Session.step` carries out a request in one go, and with it all that observers request meanwhile. A `Machine`
does the same one part after the other. What is left to do is a list of tasks: the first of them is carried
out next, and those that it was begun for come after it. A fault drops tasks until one catches it.

So there is a session between any two parts, and one can tell what came before and what comes later, whether
it was requested from outside or by an observer that was called meanwhile (`Machine.Runs`).
-/

namespace RadioOccupancy

/-- On whose behalf an observer is called. -/
inductive Caller where
  /-- a tracker that takes a transition -/
  | transition (index : Nat)
  /-- a tracker that was requested to emit an event -/
  | emission (index : Nat)
  /-- a listener registry -/
  | registry
deriving DecidableEq, Repr

/-- Something that is left to do. -/
inductive Task where
  | call (caller : Caller) (c : ObserverCall)
  /-- the listeners that have not been called yet -/
  | listeners (caller : Caller) (call : ListenerCall) (members : List ObserverId)
  /-- the entries that have not had their turn yet -/
  | subscribers (caller : Caller) (index : Nat) (event : TraceEvent) (entries : List Subscription)
  | notices (index : Nat) (before : Tracker) (notices : List Notice)
  /-- the announcement ends, whether it failed or not -/
  | endAnnouncement (index : Nat)
  | steps (index : Nat) (steps : List Step)
  /-- what an observer has not requested yet -/
  | script (script : Script)
  /-- a request of an observer is answered, with the result unless something failed -/
  | reply (step : Scripted Request) (result : Except Fault Value)
  /-- a request from outside is answered -/
  | answer (r : Request) (result : Except Fault Value)

/-- A session while requests are carried out. -/
structure Machine where
  session : Session := {}
  tasks : List Task := []
  /-- drops tasks until one catches it -/
  fault : Option Fault := none
  answers : List Session.Answer := []

/-- The reply to a request that has come to an end. -/
def Session.replyTo (s : Session) (r : Request) (result : Except Fault Value) : Reply :=
  match r with
  | .tracker name tr => ⟨result, if tr.showsTracker then s.view? name else none⟩
  | _ => { result }

/-- The request calls observers by itself. -/
def Request.callsObservers : Request → Bool
  | .tracker _ (.transition _) | .tracker _ (.emit _) | .registry _ (.notify _) => true
  | _ => false

namespace Act

/-- No observer does anything. -/
def silent : Respond :=
  fun _ => return ()

/-- Begins to carry out a request: what is left to do, and how the request ends when that is done. -/
def opening : Request → Act (List Task × Except Fault Value)
  | .tracker name (.transition x) => do
    let index ← named (← get).trackerNames name
    let plan := (← tracker index).plan x
    return ([.steps index plan.steps], (plan.outcome.mapError .refused).map fun _ => .nothing)
  | .tracker name (.emit event) => do
    let index ← named (← get).trackerNames name
    let entries := (← tracker index).subscriptions.ofKind event.kind
    return ([.subscribers (.emission index) index event entries], .ok (.flag !entries.isEmpty))
  | .registry name (.notify call) => do
    let set ← named (← get).registries name
    return ([.listeners .registry call set.members], .ok .nothing)
  | r => do
    -- no other request calls observers
    let value ← perform silent r
    return ([], .ok value)

theorem opening_eq_silent {r : Request} (h : r.callsObservers = false) :
    opening r = perform silent r >>= fun value => pure ([], .ok value) := by
  cases r with
  | tracker name q =>
    cases q with
    | transition | emit => cases h
    | _ => rfl
  | registry name q =>
    cases q with
    | notify => cases h
    | _ => rfl
  | _ => rfl

/-- Begins to give a notice. -/
def beginNotice (index : Nat) (before : Tracker) : Notice → Act (List Task)
  | .listeners call =>
    return [.listeners (.transition index) call (← tracker index).listeners.members]
  | .trace event =>
    return [.subscribers (.transition index) index event
      ((← tracker index).subscriptions.ofKind event.kind)]
  | .deliver delivery =>
    match before.callbackFor delivery with
    | some id => return [.call (.transition index) (.delivery id delivery)]
    | none => return []

/-- Begins a step of a plan. -/
def beginStep (index : Nat) : Step → Act (List Task)
  | .change c => do
    modifyTracker index fun t => { t with core := c.apply t.core }
    return []
  | .announce notices => do
    let before ← tracker index
    modifyTracker index fun t => { t with announcing := t.announcing + 1 }
    return [.notices index before notices, .endAnnouncement index]
  | .log m => do
    write (← tracker index).log m
    return []

/-- Begins a task: what is left of it. A call to an observer is nested in others and must not be nested too
deeply. -/
def beginTask (depth : Nat) : Task → Act (List Task)
  | .call _ c =>
    match depth with
    | 0 => throw .endlessNesting
    | _ + 1 => do
      see (.called c)
      return [.script ((← get).scriptFor c.id c.occasion)]
  | .listeners caller call (id :: rest) =>
    return [.call caller (.listener id call), .listeners caller call rest]
  | .subscribers caller index event (e :: rest) => do
    match (← tracker index).subscriptions.claim e with
    | some subscriptions =>
      modifyTracker index fun t => { t with subscriptions }
      match e.subscriber with
      | .observer id => return [.call caller (.trace id event), .subscribers caller index event rest]
      | .collector k =>
        modifyCollector k fun c => { c with totals := c.totals.add event }
        return [.subscribers caller index event rest]
    | none => return [.subscribers caller index event rest]
  | .notices index before (n :: rest) => do
    let first ← beginNotice index before n
    return first ++ [.notices index before rest]
  | .steps index (step :: rest) => do
    let first ← beginStep index step
    return first ++ [.steps index rest]
  | _ => return []

end Act

/-- An observer is at work. -/
def Task.isScript : Task → Bool
  | .script _ => true
  | _ => false

/-- What a failed action passes on. -/
def fault? {α : Type} : Except Fault α → Option Fault
  | .error e => some e
  | .ok _ => none

/-- The task does something even if something has failed. -/
def Task.catches : Task → Bool
  | .endAnnouncement _ | .reply .. | .answer .. => true
  | _ => false

/-- The task belongs to one observer at work, and is dropped when something fails. -/
def Task.isPlain (task : Task) : Bool :=
  !task.catches && !task.isScript

theorem Task.catches_of_isPlain {task : Task} (h : task.isPlain = true) : task.catches = false := by
  simp only [isPlain, Bool.and_eq_true, Bool.not_eq_true'] at h
  exact h.1

namespace Machine

/-- How deeply calls may still be nested when the tasks are what is left to do. -/
def depth (tasks : List Task) : Nat :=
  Session.nestingLimit - tasks.countP Task.isScript

/-- How a request ends: as it should, or with the fault that is being passed on. -/
def outcome (m : Machine) (result : Except Fault Value) : Except Fault Value :=
  match m.fault with
  | some e => .error e
  | none => result

/-- Begins to carry out a request, which is going to be answered before the other tasks. -/
def ask (m : Machine) (r : Request) (answer : Except Fault Value → Task) (rest : List Task) : Machine :=
  match (Act.opening r).ran m.session with
  | (.ok (work, result), s) => { m with session := s, tasks := work ++ answer result :: rest }
  | (.error e, s) => { m with session := s, tasks := answer (.error e) :: rest }

/-- Begins to carry out a request from outside. -/
def begin (m : Machine) (r : Request) : Machine :=
  { m with session := { m.session with events := #[] } }.ask r (.answer r) []

/-- Carries out the first part of a task. -/
def proceed (m : Machine) (task : Task) (rest : List Task) : Machine :=
  match task, m.fault with
  | .endAnnouncement index, _ =>
    { m with
      session := m.session.modifyTracker index fun t => { t with announcing := t.announcing - 1 }
      tasks := rest }
  | .reply step result, _ =>
    let reply := m.session.replyTo step.request (m.outcome result)
    { m with
      session := m.session.see (.nested step.request.name reply)
      tasks := rest
      fault := if step.rethrow then fault? (m.outcome result) else none }
  | .answer r result, _ =>
    { m with
      tasks := rest
      fault := none
      answers := m.answers ++ [⟨m.session.replyTo r (m.outcome result), m.session.events⟩] }
  | .script (step :: script), none => m.ask step.request (.reply step) (.script script :: rest)
  | task, none =>
    match (Act.beginTask (depth rest) task).ran m.session with
    | (.ok more, s) => { m with session := s, tasks := more ++ rest }
    | (.error e, s) => { m with session := s, tasks := rest, fault := some e }
  | _, some _ => { m with tasks := rest }

/-- A task is begun, and what is left of it comes first. -/
theorem proceed_of_begin {task : Task} (hcatches : task.catches = false)
    (hscript : ∀ step script, task ≠ .script (step :: script)) (s : Session) (tasks rest : List Task)
    (answers : List Session.Answer) : (⟨s, tasks, none, answers⟩ : Machine).proceed task rest =
      match (Act.beginTask (depth rest) task).ran s with
      | (.ok more, s') => ⟨s', more ++ rest, none, answers⟩
      | (.error e, s') => ⟨s', rest, some e, answers⟩ := by
  cases task with
  | endAnnouncement | reply | answer => cases hcatches
  | script script =>
    cases script with
    | nil => rfl
    | cons step script => exact absurd rfl (hscript step script)
  | call | listeners | subscribers | notices | steps => rfl

/-- A fault drops it. -/
theorem proceed_of_fault {task : Task} (hcatches : task.catches = false) (s : Session)
    (tasks rest : List Task) (e : Fault) (answers : List Session.Answer) :
    (⟨s, tasks, some e, answers⟩ : Machine).proceed task rest = ⟨s, rest, some e, answers⟩ := by
  cases task with
  | endAnnouncement | reply | answer => cases hcatches
  | script script => cases script <;> rfl
  | call | listeners | subscribers | notices | steps => rfl

/-- Carries out the next part of what is left to do. -/
def step (m : Machine) : Option Machine :=
  match m.tasks with
  | task :: rest => some (m.proceed task rest)
  | [] => none

/-- What an observer requests next. -/
def asked? (m : Machine) : Option Request :=
  match m.tasks, m.fault with
  | .script (step :: _) :: _, none => some step.request
  | _, _ => none

theorem asked?_eq_some {m : Machine} {r : Request} (h : m.asked? = some r) :
    ∃ step script rest, m.tasks = .script (step :: script) :: rest ∧ m.fault = none ∧ step.request = r := by
  rw [asked?] at h
  split at h
  · next first script rest htasks hfault => exact ⟨first, script, rest, htasks, hfault, Option.some.inj h⟩
  · cases h

/-- A request that passes the test is the only one that does. -/
theorem asked?_of_any {m : Machine} {r : Request} {f : Request → Bool} (h : m.asked?.any f = true)
    (hf : ∀ q, f q = true → q = r) : m.asked? = some r := by
  cases hq : m.asked? with
  | none =>
    rw [hq] at h
    cases h
  | some q =>
    rw [hq] at h
    exact congrArg some (hf q h)

/-- The machine goes on, and begins with a request at that if there is one. A request from outside waits until
nothing is left to do. -/
inductive Next : Option Request → Machine → Machine → Prop
  | request {m : Machine} (r : Request) (h : m.tasks = []) : Next (some r) m (m.begin r)
  | step {m m' : Machine} (h : m.step = some m') : Next m.asked? m m'

/-- The machine carries out requests one after the other, from outside and of observers. -/
inductive Runs (m : Machine) : List Request → Machine → Prop
  | nil : Runs m [] m
  | snoc {rs : List Request} {r : Option Request} {m' m'' : Machine} (h : Runs m rs m')
      (hnext : Next r m' m'') : Runs m (rs ++ r.toList) m''

/-- The machine can get into this state. -/
def Reachable (m : Machine) : Prop :=
  ∃ rs, Runs {} rs m

/-- The machine can get from one state into the other. -/
def Later (m m' : Machine) : Prop :=
  ∃ rs, Runs m rs m'

theorem Later.refl (m : Machine) : m.Later m :=
  ⟨[], .nil⟩

theorem Later.next {r : Option Request} {m m' m'' : Machine} (h : m.Later m') (hnext : Next r m' m'') :
    m.Later m'' :=
  h.elim fun _ hruns => ⟨_, hruns.snoc hnext⟩

theorem Later.trans {m m' m'' : Machine} (h : m.Later m') (h' : m'.Later m'') : m.Later m'' := by
  obtain ⟨rs, hruns⟩ := h'
  induction hruns with
  | nil => exact h
  | snoc _ hnext ih => exact ih.next hnext

theorem Reachable.later {m m' : Machine} (h : m.Reachable) (hlater : m.Later m') : m'.Reachable :=
  Later.trans (m := {}) h hlater

end Machine

end RadioOccupancy
