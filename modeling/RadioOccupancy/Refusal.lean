import RadioOccupancy.Radio.State
import RadioOccupancy.Spectrum.Band

/-!
Requests that a caller must not make, and what they are told.

A refusal names the operation that was requested and the cause; its code, its message and the state
it reports follow from those two.
-/

namespace RadioOccupancy

/-- Why a request was refused. -/
inductive Cause where
  | disposed
  | reentrant
  | time (now : Number)
  | timeWentBack (now last : Number)
  | duration (d : Number)
  | band (b : Band)
  | threshold (dbm : Number)
  | resolution (dbm : Number)
  | noPsdu
  | power (dbm : Number)
  | stateRejected (state : Radio.State)
  | stateUnmet (state : Radio.State) (allowed : List Radio.State)
  | noReception (state : Radio.State)
  | nothingToContinue (state : Radio.State)
  | statusCount (packets statuses : Nat)
  | idleUndefined (state : Radio.State)
  | width (channel band : Number)
  | bandIndex (index : Number)
  | doesNotFit (index band channel : Number)
  | spacing (hz band : Number)

/-- The kinds of refusal that callers tell apart. -/
inductive RefusalCode where
  | preconditionViolation
  | undefinedStateQuery
  | nonMonotonicTime
  | reentrantTransition
  | invalidArgument
deriving DecidableEq, Repr

/-- The name of a code in answers and log details. -/
def RefusalCode.name : RefusalCode → String
  | .preconditionViolation => "PRECONDITION_VIOLATION"
  | .undefinedStateQuery => "UNDEFINED_STATE_QUERY"
  | .nonMonotonicTime => "NON_MONOTONIC_TIME"
  | .reentrantTransition => "REENTRANT_TRANSITION"
  | .invalidArgument => "INVALID_ARGUMENT"

/-- A refused request. -/
structure Refusal where
  operation : String
  cause : Cause

namespace Refusal

/-- The kind of a refusal. -/
def code (r : Refusal) : RefusalCode :=
  match r.cause with
  | .disposed | .stateRejected _ | .stateUnmet _ _ | .noReception _ | .nothingToContinue _ =>
    .preconditionViolation
  | .reentrant => .reentrantTransition
  | .timeWentBack _ _ => .nonMonotonicTime
  | .idleUndefined _ => .undefinedStateQuery
  | _ => .invalidArgument

/-- The state that a refusal reports: the one that was in the way, if a state was. -/
def state? (r : Refusal) : Option Radio.State :=
  match r.cause with
  | .stateRejected s | .stateUnmet s _ | .noReception s | .nothingToContinue s
  | .idleUndefined s => some s
  | _ => none

/-- What the caller is told. -/
def message (r : Refusal) : String :=
  match r.cause with
  | .disposed => "Tracker has been disposed"
  | .reentrant => "Transition requested while notifying observers"
  | .time now => "Invalid simulation time: " ++ now.text
  | .timeWentBack now last => "Time went backwards: " ++ now.text ++ " < " ++ last.text
  | .duration d => "Invalid duration: " ++ d.text
  | .band b => "Invalid spectrum band " ++ b.text
  | .threshold dbm => "CCA threshold must be finite, got " ++ dbm.text
  | .resolution dbm => "Threshold resolution must be positive, got " ++ dbm.text
  | .noPsdu => "At least one PSDU is required"
  | .power dbm => "Transmit power must be finite, got " ++ dbm.text
  | .stateRejected s => "Cannot " ++ r.operation ++ " while " ++ s.name
  | .stateUnmet s allowed =>
    "Cannot " ++ r.operation ++ " while " ++ s.name ++ " (expected " ++
      String.intercalate " or " (allowed.map Radio.State.name) ++ ")"
  | .noReception _ => "Cannot " ++ r.operation ++ " without a reception in progress"
  | .nothingToContinue _ => "No reception in progress to continue"
  | .statusCount packets statuses =>
    "Expected " ++ toString packets ++ " MPDU statuses, got " ++ toString statuses
  | .idleUndefined s => "Delay until idle is undefined while " ++ s.name
  | .width channel band =>
    "Unsupported width: channel " ++ channel.text ++ " MHz, band " ++ band.text ++ " MHz"
  | .bandIndex index => "Invalid band index " ++ index.text
  | .doesNotFit index band channel =>
    "Band " ++ index.text ++ " of " ++ band.text ++ " MHz does not fit a " ++ channel.text ++
      " MHz channel"
  | .spacing hz band =>
    "Subcarrier spacing " ++ hz.text ++ " Hz does not divide " ++ band.text ++ " MHz"

end Refusal

/-- A band that operations accept. -/
def Band.check (b : Band) (operation : String) : Except Refusal Unit :=
  if b.isValid then .ok () else .error ⟨operation, .band b⟩

end RadioOccupancy
