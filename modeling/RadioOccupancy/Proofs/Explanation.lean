import RadioOccupancy.Proofs.Planning
import RadioOccupancy.Session.Request
import RadioOccupancy.Tracker.Query

/-!
What transitions and questions log of a refusal.

    transition         checks  -----------------------------------------  report   enact
                       time, order, arguments, state:  error              -        -
                       band, threshold:                nothing            nothing  nothing
    time to idle       time, no answer, threshold:     error
                       band:                           nothing
    other questions    time:                           error
                       band, threshold:                nothing

A tracker logs what it refuses itself. Bands and thresholds are refused by others, which know no log, and only
the question for the time to idleness logs that on their behalf. What is logged comes last, and there is no
other error among the messages of a request (`Planning.explains_body`, `Query.explains_timeToIdle`).
-/

namespace RadioOccupancy

namespace Refusal

/-- A threshold cannot be used, or the resolution cannot. -/
def IsOfThreshold (r : Refusal) : Prop :=
  (∃ dbm, r.cause = .threshold dbm) ∨ ∃ dbm, r.cause = .resolution dbm

/-- What a transition logs of a refusal, if anything. -/
def logged? (r : Refusal) : Option Log.Message :=
  match r.cause with
  | .band _ | .threshold _ | .resolution _ => none
  | _ => some (Planning.refusalMessage r)

end Refusal

/-- What a question logs of a refusal, if anything. -/
def BandQuestion.logged? (question : BandQuestion) (r : Refusal) : Option Log.Message :=
  match question, r.cause with
  | .timeToIdle, .threshold _ | .timeToIdle, .resolution _ | .timeToIdle, .idleUndefined _ =>
    some ⟨.error, r.message, some [("operation", .text r.operation)]⟩
  | _, _ => r.logged?

theorem BandQuestion.logged?_eq (question : BandQuestion) (h : question ≠ .timeToIdle) :
    question.logged? = Refusal.logged? := by
  funext ⟨operation, cause⟩
  cases question with
  | timeToIdle => exact absurd rfl h
  | _ => cases cause <;> rfl

theorem error_of_bind {ε α β : Type} {x : Except ε α} {f : α → Except ε β} {e : ε}
    (h : x >>= f = .error e) : x = .error e ∨ ∃ a, x = .ok a ∧ f a = .error e := by
  cases x with
  | error e' => exact Or.inl (congrArg Except.error (Except.error.inj h))
  | ok a => exact Or.inr ⟨a, rfl, h⟩

/-! ### Where thresholds are looked at -/

theorem Threshold.isOfThreshold_of_step_error {dbm resolution : Number} {r : Refusal}
    (h : step dbm resolution = .error r) : r.IsOfThreshold := by
  rw [step] at h
  split at h
  · obtain rfl := Except.error.inj h
    exact Or.inl ⟨dbm, rfl⟩
  · split at h
    · obtain rfl := Except.error.inj h
      exact Or.inr ⟨resolution, rfl⟩
    · cases h

namespace BusyTable

variable {t : BusyTable} {band : Band} {threshold now : Number} {r : Refusal}

theorem isOfThreshold_of_get_error (h : t.get band threshold = .error r) : r.IsOfThreshold := by
  rcases error_of_bind h with h | ⟨_, -, h⟩
  · exact Threshold.isOfThreshold_of_step_error h
  · cases h

theorem isOfThreshold_of_detection_error {duration : Number}
    (h : t.detection band threshold now duration = .error r) : r.IsOfThreshold := by
  rcases error_of_bind h with h | ⟨_, -, h⟩
  · exact Threshold.isOfThreshold_of_step_error h
  · cases h

end BusyTable

namespace Record

variable {record : Record} {table : BusyTable} {band : Band} {threshold now : Number} {r : Refusal}

theorem isOfThreshold_of_stateOn_error (h : record.stateOn table band threshold now = .error r) :
    r.IsOfThreshold := by
  rw [stateOn] at h
  split at h
  · cases h
  · rcases error_of_bind h with h | ⟨_, -, h⟩
    · rcases error_of_bind h with h | ⟨_, -, h⟩
      · exact BusyTable.isOfThreshold_of_get_error h
      · cases h
    · cases h

theorem isOfThreshold_of_timeSinceBusy_error
    (h : record.timeSinceBusy table band threshold now = .error r) : r.IsOfThreshold := by
  rcases error_of_bind h with h | ⟨_, -, h⟩
  · exact BusyTable.isOfThreshold_of_get_error h
  · cases h

/-- There is no time to idleness where a threshold cannot be used, and none for a radio that is asleep or off.
-/
theorem cause_of_timeToIdle_error (h : record.timeToIdle table band threshold now = .error r) :
    r.IsOfThreshold ∨ ∃ state, r.cause = .idleUndefined state := by
  rcases error_of_bind h with h | ⟨state, -, h⟩
  · exact Or.inl (isOfThreshold_of_stateOn_error h)
  · split at h
    · obtain rfl := Except.error.inj h
      exact Or.inr ⟨state, rfl⟩
    · rcases error_of_bind h with h | ⟨_, -, h⟩
      · exact Or.inl (BusyTable.isOfThreshold_of_get_error h)
      · cases h

end Record

namespace Planning

/-! ### Transitions -/

variable {logged? : Refusal → Option Log.Message}

theorem explains_checkBand {operation : String} {band : Band} (h : logged? ⟨operation, .band band⟩ = none) :
    Explains logged? (check (band.check operation)) := by
  refine .check fun r hr => ?_
  rw [Band.check] at hr
  split at hr
  · cases hr
  · obtain rfl := Except.error.inj hr
    exact ⟨Cause.noConfusion, h⟩

/-- What is refused for a threshold is not logged by the one that looks at it. -/
theorem explains_checkThreshold {α : Type} {result : Except Refusal α}
    (h : ∀ r, result = .error r → r.IsOfThreshold) : Explains Refusal.logged? (check result) := by
  refine .check fun r hr => ?_
  obtain ⟨operation, cause⟩ := r
  obtain ⟨dbm, rfl⟩ | ⟨dbm, rfl⟩ := h _ hr
  · exact ⟨nofun, rfl⟩
  · exact ⟨nofun, rfl⟩

theorem explains_checkTime {operation : String} {now : Number}
    (h : logged? ⟨operation, .time now⟩ = some (refusalMessage ⟨operation, .time now⟩)) :
    Explains logged? (checkTime operation now) :=
  .ite (.pure _) (.refuse nofun h)

theorem explains_checkDuration (operation : String) (duration : Number) :
    Explains Refusal.logged? (checkDuration operation duration) :=
  .ite (.pure _) (.refuse nofun rfl)

theorem explains_checkRequest (x : Transition) : Explains Refusal.logged? (checkRequest x) := by
  refine (explains_checkTime rfl).bind fun _ => Explains.core.bind fun _ => ?_
  refine .guarded (.refuse nofun rfl) fun _ => ?_
  split
  · exact explains_checkBand rfl
  · exact .pure _

theorem explains_stateOn (now : Number) (band : Band) (threshold : Number) :
    Explains Refusal.logged? (stateOn now band threshold) :=
  Explains.core.bind fun _ => explains_checkThreshold fun _ hr => Record.isOfThreshold_of_stateOn_error hr

theorem explains_forbidStates (operation : String) (now : Number) (band : Band) (threshold : Number)
    (rejected : List Radio.State) :
    Explains Refusal.logged? (forbidStates operation now band threshold rejected) :=
  (explains_stateOn _ _ _).bind fun _ => .refuse_if nofun rfl

theorem explains_demandState (operation : String) (now : Number) (band : Band) (threshold : Number)
    (allowed : List Radio.State) :
    Explains Refusal.logged? (demandState operation now band threshold allowed) :=
  (explains_stateOn _ _ _).bind fun _ => .refuse_if nofun rfl

theorem explains_checkArguments (x : Transition) : Explains Refusal.logged? x.checkArguments := by
  cases x with
  | transmit =>
    have hpower {power : Number} {operation : String} :
        Explains Refusal.logged? (if !power.isFinite then refuse operation (.power power) else pure ()) :=
      .refuse_if nofun rfl
    exact (explains_checkDuration _ _).bind fun _ => .guarded (.refuse nofun rfl) fun _ => hpower
  | receive | retune | detectEnergy | wakeUp | powerOn => exact explains_checkDuration _ _
  | completeReception => exact .ite (.refuse nofun rfl) (.pure _)
  | continueReception | loseReception | abortReception | fallAsleep | powerOff | flush => exact .pure _

theorem explains_checkState (config : Config) (x : Transition) :
    Explains Refusal.logged? (x.checkState config) := by
  cases x with
  | transmit | retune | detectEnergy | fallAsleep => exact explains_forbidStates _ _ _ _ _
  | receive | wakeUp | powerOn => exact explains_demandState _ _ _ _ _
  | continueReception | completeReception | loseReception | abortReception =>
    exact Explains.core.bind fun _ => .refuse_if nofun rfl
  | powerOff | flush => exact .pure _

theorem explains_reportSegment (s : Segment) : Explains logged? (reportSegment s) :=
  .ite (.pure _) (.announce _)

theorem explains_reportSegments : ∀ segments, Explains logged? (reportSegments segments)
  | [] => .pure _
  | s :: rest => (explains_reportSegment s).bind fun _ => explains_reportSegments rest

theorem explains_reportProgress : ∀ segments, Explains logged? (reportProgress segments)
  | [] => .pure _
  | s :: rest => (explains_reportSegment s).bind fun _ => (Explains.change _).bind fun _ =>
      explains_reportProgress rest

theorem explains_reportOwn (now : Number) : Explains logged? (reportOwn now) :=
  Explains.core.bind fun _ => (explains_reportProgress _).bind fun _ => .pure _

theorem explains_reportUntil (now : Number) (band : Band) (threshold : Number) :
    Explains Refusal.logged? (reportUntil now band threshold) := by
  refine Explains.core.bind fun before => .ite (.pure _) ?_
  split
  · exact (explains_reportSegment _).bind fun _ => .change _
  · exact (explains_reportOwn _).bind fun _ =>
      (explains_checkThreshold fun _ hr => BusyTable.isOfThreshold_of_get_error hr).bind fun _ =>
        (explains_reportSegments _).bind fun _ => .change _

theorem explains_report (config : Config) (x : Transition) : Explains Refusal.logged? (x.report config) := by
  cases x with
  | transmit | receive | retune | fallAsleep | wakeUp | powerOff | powerOn | flush =>
    exact explains_reportUntil _ _ _
  | detectEnergy now duration on isPrimary =>
    cases isPrimary with
    | true => exact explains_reportUntil _ _ _
    | false => exact .pure _
  | completeReception | loseReception | abortReception => exact (explains_reportOwn _).bind fun _ => .pure _
  | continueReception => exact .pure _

theorem explains_noteTransition (config : Config) (operation : String) (now : Number)
    (duration : Option Number) (details : Details) :
    Explains logged? (noteTransition config operation now duration details) :=
  .ite (.log nofun) (.pure _)

theorem explains_senseEnergy (config : Config) (now duration : Number) (band : Band) (isPrimary : Bool)
    (threshold : Number) :
    Explains Refusal.logged? (senseEnergy config now duration band isPrimary threshold) := by
  refine Explains.core.bind fun _ => (explains_checkThreshold fun _ hr =>
    BusyTable.isOfThreshold_of_detection_error hr).bind fun found => ?_
  exact .guarded (.change _) fun _ => .guarded (.log nofun) fun _ => .ite (.announce _) (.pure _)

theorem explains_enact (config : Config) (x : Transition) : Explains Refusal.logged? (x.enact config) := by
  cases x with
  | transmit | receive | retune | completeReception | loseReception | fallAsleep | powerOff =>
    exact (Explains.change _).bind fun _ => (explains_noteTransition _ _ _ _ _).bind fun _ => .announce _
  | abortReception =>
    exact (Explains.change _).bind fun _ => (explains_noteTransition _ _ _ _ _).bind fun _ =>
      .ite (.announce _) (.pure _)
  | continueReception =>
    exact (Explains.change _).bind fun _ => .ite (Explains.core.bind fun _ => .log nofun) (.pure _)
  | detectEnergy => exact (explains_senseEnergy _ _ _ _ _ _).bind fun _ => .change _
  | wakeUp | powerOn =>
    exact (Explains.change _).bind fun _ => Explains.core.bind fun _ =>
      (explains_noteTransition _ _ _ _ _).bind fun _ => (Explains.announce _).bind fun _ =>
        .ite (explains_senseEnergy _ _ _ _ _ _) (.pure _)
  | flush => exact .pure _

/-- A transition is refused for a cause of its own, and logs no error but that. -/
theorem explains_body (config : Config) (x : Transition) :
    Explains Refusal.logged? (do checkRequest x; x.body config) :=
  (explains_checkRequest x).bind fun _ => (explains_checkArguments x).bind fun _ =>
    (explains_checkState config x).bind fun _ => (explains_report config x).bind fun _ =>
      explains_enact config x

end Planning

/-! ### Questions -/

namespace Query
open Planning

variable (config : Config) (now : Number) (on : Sensing)

theorem explains_state : Explains Refusal.logged? (state config now on) :=
  (explains_checkTime rfl).bind fun _ => (explains_checkBand rfl).bind fun _ => explains_stateOn _ _ _

theorem explains_timeSinceBusy : Explains Refusal.logged? (timeSinceBusy config now on) :=
  (explains_checkTime rfl).bind fun _ => (explains_checkBand rfl).bind fun _ => Explains.core.bind fun _ =>
    explains_checkThreshold fun _ hr => Record.isOfThreshold_of_timeSinceBusy_error hr

/-- That there is no time to idleness is logged, whoever found it out. -/
theorem explains_timeToIdle : Explains (BandQuestion.logged? .timeToIdle) (timeToIdle config now on) := by
  refine (explains_checkTime rfl).bind fun _ => (explains_checkBand rfl).bind fun _ =>
    Explains.core.bind fun core => ?_
  cases h : core.record.timeToIdle core.table on.band (on.thresholdIn config) now with
  | ok delay => exact .pure _
  | error r =>
    obtain ⟨operation, cause⟩ := r
    obtain (⟨dbm, rfl⟩ | ⟨dbm, rfl⟩) | ⟨state, rfl⟩ := Record.cause_of_timeToIdle_error h
    · exact .report nofun rfl
    · exact .report nofun rfl
    · exact .report nofun rfl

end Query

end RadioOccupancy
