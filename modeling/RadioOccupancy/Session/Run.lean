import RadioOccupancy.Session.Perform

/-!
Running requests, and the requests that observers make when they are called.

An observer that is called runs its script; the requests in it may call further observers, and so on.
Calls that are nested beyond a limit fail, so that observers that keep calling each other come to an
end.
-/

namespace RadioOccupancy

namespace Act

/-- Carries out a request and answers it, whether it fails or not. -/
def reply (perform : Request → Act Value) (r : Request) : Act Reply := do
  let result ← attempt (perform r)
  match r with
  | .tracker name tr =>
    let view := (← get).view? name
    return ⟨result, if tr.showsTracker then view else none⟩
  | _ => return { result }

/-- Runs a script. Each answer is seen, and a request that fails ends the script if it is marked so. -/
def runScript (perform : Request → Act Value) : Script → Act Unit
  | [] => return ()
  | step :: rest => do
    let answer ← reply perform step.request
    see (.nested step.request.name answer)
    match answer.result with
    | .error fault => if step.rethrow then throw fault
    | .ok _ => pure ()
    runScript perform rest

/-- The response of an observer: the call is seen, and then the observer's script for the occasion
is run as it stands at that moment. The first argument limits the depth of nested calls. -/
def respond : Nat → Respond
  | 0, _ => throw .endlessNesting
  | depth + 1, call => do
    see (.called call)
    runScript (perform (respond depth)) ((← get).scriptFor call.id call.occasion)

end Act

namespace Session

/-- How deeply calls to observers may be nested. -/
def nestingLimit : Nat := 1000

/-- The answer to a request and what was seen while it was carried out. -/
structure Answer where
  reply : Reply
  events : Array Event

/-- Carries out a request. -/
def step (s : Session) (r : Request) : Answer × Session :=
  let (result, s) := (Act.reply (Act.perform (Act.respond nestingLimit)) r).run { s with events := #[] }
  match result with
  | .ok reply => (⟨reply, s.events⟩, s)
  | .error fault => (⟨{ result := .error fault }, s.events⟩, s)

/-- Carries out requests in turn. A request that fails does not stop the others. -/
def run (s : Session) : List Request → List Answer
  | [] => []
  | r :: rest =>
    let (answer, s) := s.step r
    answer :: run s rest

end Session

end RadioOccupancy
