import RadioOccupancy.Log.Basic
import RadioOccupancy.Observer.Notice
import RadioOccupancy.Tracker.Core

/-!
A plan is everything a request to a tracker does, in order: changes, announcements to observers and
log messages, and at the end its result or a refusal.

Plans are drawn up by running a request on a copy of what the tracker remembers, in which each change
is visible to the checks that come after it. Observers cannot change what a tracker remembers while
it is telling them something, so a plan stays right while it is carried out.
-/

namespace RadioOccupancy

/-- One step of a plan. -/
inductive Step where
  | change (c : Change)
  /-- tells observers, one notice after another, without letting them request transitions -/
  | announce (notices : List Notice)
  | log (m : Log.Message)

/-- The steps of a request and how it ends. The steps before a refusal are carried out too. -/
structure Plan (α : Type) where
  steps : List Step
  outcome : Except Refusal α

namespace Plan

variable {α : Type}

/-- The changes that a plan makes. -/
def changes (p : Plan α) : List Change :=
  p.steps.filterMap fun
    | .change c => some c
    | _ => none

/-- What observers are told, in order. -/
def notices (p : Plan α) : List Notice :=
  p.steps.flatMap fun
    | .announce ns => ns
    | _ => []

/-- What is logged, in order. -/
def messages (p : Plan α) : List Log.Message :=
  p.steps.filterMap fun
    | .log m => some m
    | _ => none

/-- What the tracker remembers after all the steps. -/
def finalCore (p : Plan α) (core : Core) : Core :=
  p.changes.foldl (fun core c => c.apply core) core

end Plan

/-- A plan being drawn up: what the tracker will remember by now, and the steps so far. -/
structure Draft where
  core : Core
  steps : List Step := []

/-- Draws up a plan with a result. -/
abbrev Planning (α : Type) := ExceptT Refusal (StateM Draft) α

namespace Planning

/-- The plan that has been drawn up. -/
def plan {α : Type} (p : Planning α) (core : Core) : Plan α :=
  let (outcome, draft) := p.run { core := core }
  ⟨draft.steps, outcome⟩

/-- What the tracker remembers after the steps so far. -/
def core : Planning Core := do
  return (← get).core

/-- Plans a change. -/
def change (c : Change) : Planning Unit :=
  modify fun d => ⟨c.apply d.core, d.steps ++ [.change c]⟩

/-- Plans an announcement. -/
def announce (notices : List Notice) : Planning Unit :=
  modify fun d => { d with steps := d.steps ++ [.announce notices] }

/-- Plans a log message. -/
def log (m : Log.Message) : Planning Unit :=
  modify fun d => { d with steps := d.steps ++ [.log m] }

/-- A check that ends the plan if it fails and leaves no trace in the log. -/
def check {α : Type} (result : Except Refusal α) : Planning α :=
  match result with
  | .ok a => return a
  | .error r => throw r

/-- What the log says about a refusal. -/
def refusalMessage (r : Refusal) : Log.Message where
  level := .error
  message := "PHY state error in " ++ r.operation ++ ": " ++ r.message
  details := some
    [("code", .text r.code.name),
     ("currentState", (r.state?.map fun s => .text s.name).getD .absent)]

/-- Logs a refusal and ends the plan with it. -/
def refuse {α : Type} (operation : String) (cause : Cause) : Planning α := do
  let r : Refusal := ⟨operation, cause⟩
  log (refusalMessage r)
  throw r

/-- Requests are made at finite times from zero on. -/
def checkTime (operation : String) (now : Number) : Planning Unit :=
  if now.isTime then return () else refuse operation (.time now)

/-- Durations are finite and not negative. -/
def checkDuration (operation : String) (duration : Number) : Planning Unit :=
  if duration.isTime then return () else refuse operation (.duration duration)

end Planning

end RadioOccupancy
