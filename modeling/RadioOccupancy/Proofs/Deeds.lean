import RadioOccupancy.Proofs.Transition
import RadioOccupancy.Tracker.Basic

/-!
What a plan does, step by step.

The steps of a plan are changes, announcements, and log messages between them. The changes and the
announcements are its deeds. Every transition has one list of deeds, first those of its report and then
those of the transition itself (`Transition.deeds`). The plan of a transition that is permitted does all
of them if it is accepted. If it is refused because its threshold cannot be used, it does a beginning of
them. A transition that is not permitted does nothing (`Tracker.deeds_plan`).

So what holds `Throughout` that list holds wherever a transition is stopped, by a refusal or by an
observer that fails.
-/

namespace RadioOccupancy

/-- The step changes or tells something. -/
def Step.isDeed : Step → Bool
  | .change _ | .announce _ => true
  | .log _ => false

/-- The steps without the log messages. -/
def deedsOf (steps : List Step) : List Step :=
  steps.filter Step.isDeed

section Steps

variable (steps more : List Step) (core : Core)

@[simp]
theorem coreAfter_nil : coreAfter [] core = core := rfl

@[simp]
theorem coreAfter_change (c : Change) :
    coreAfter (.change c :: steps) core = coreAfter steps (c.apply core) := rfl

@[simp]
theorem coreAfter_announce (ns : List Notice) :
    coreAfter (.announce ns :: steps) core = coreAfter steps core := rfl

@[simp]
theorem coreAfter_log (m : Log.Message) :
    coreAfter (.log m :: steps) core = coreAfter steps core := rfl

@[simp]
theorem deedsOf_append : deedsOf (steps ++ more) = deedsOf steps ++ deedsOf more :=
  List.filter_append ..

/-- Log messages change nothing. -/
theorem coreAfter_deedsOf : coreAfter (deedsOf steps) core = coreAfter steps core := by
  induction steps generalizing core with
  | nil => rfl
  | cons step rest ih => cases step <;> simp [deedsOf, Step.isDeed] <;> exact ih _

/-- No step changes how finely thresholds are told apart. -/
theorem resolution_coreAfter : (coreAfter steps core).table.resolution = core.table.resolution := by
  induction steps generalizing core with
  | nil => rfl
  | cons step rest ih =>
    cases step with
    | change c =>
      rw [coreAfter_change, ih]
      cases c <;> rfl
    | announce | log => exact ih _

theorem noticesOf_announce (ns : List Notice) : noticesOf [.announce ns] = ns := by
  simp [noticesOf, Plan.notices]

theorem noticesOf_deedsOf : noticesOf (deedsOf steps) = noticesOf steps := by
  induction steps with
  | nil => rfl
  | cons step rest ih =>
    have hcons : ∀ s : Step, ∀ steps, noticesOf (s :: steps) = noticesOf [s] ++ noticesOf steps :=
      fun s steps => noticesOf_append [s] steps
    cases step with
    | change c | announce ns =>
      rw [hcons, ← ih]
      exact hcons _ _
    | log m => exact ih

end Steps

/-- Steps that hold one deed hold it between log messages. -/
theorem deedsOf_eq_append_cons {steps before after : List Step} {step : Step}
    (h : deedsOf steps = before ++ step :: after) :
    ∃ xs ys, steps = xs ++ step :: ys ∧ deedsOf xs = before ∧ deedsOf ys = after := by
  obtain ⟨xs, zs, rfl, hxs, hzs⟩ := List.filter_eq_append_iff.1 h
  obtain ⟨ls, ys, rfl, hls, -, hys⟩ := List.filter_eq_cons_iff.1 hzs
  have hnone : deedsOf ls = [] := by
    rw [deedsOf, List.filter_eq_nil_iff]
    exact hls
  refine ⟨xs ++ ls, ys, by simp, ?_, hys⟩
  rw [deedsOf_append, hnone, List.append_nil]
  exact hxs

/-! ### The deeds of a transition -/

namespace Report

/-- Tells of a segment, unless no time passes in it. -/
def tellSegment (s : Segment) : List Step :=
  if s.isEmpty then [] else [.announce [.trace s.event]]

/-- Tells of segments and moves the cursor to the end of each. -/
def tellProgress (segments : List Segment) : List Step :=
  segments.flatMap fun s => tellSegment s ++ [.change (.reported s.stop)]

@[simp]
theorem coreAfter_tellSegment (s : Segment) (core : Core) : coreAfter (tellSegment s) core = core := by
  rw [tellSegment]
  split <;> rfl

theorem coreAfter_tellSegments (segments : List Segment) (core : Core) :
    coreAfter (segments.flatMap tellSegment) core = core := by
  induction segments with
  | nil => rfl
  | cons s rest ih => rw [List.flatMap_cons, coreAfter_append, coreAfter_tellSegment, ih]

theorem tellProgress_cons (s : Segment) (rest : List Segment) :
    tellProgress (s :: rest) = tellSegment s ++ .change (.reported s.stop) :: tellProgress rest := by
  simp [tellProgress]

theorem coreAfter_tellProgress (segments : List Segment) (core : Core) :
    coreAfter (tellProgress segments) core = { core with cursor := reach core.cursor segments } := by
  induction segments generalizing core with
  | nil => rfl
  | cons s rest ih =>
    rw [tellProgress_cons, coreAfter_append, coreAfter_tellSegment, coreAfter_change, ih, reach_cons]
    rfl

end Report

namespace Core
open Report

/-- The deeds of a report up to `now` on the band of a busy entry. -/
def reportDeeds (core : Core) (entry : Option BusyEntry) (now : Number) : List Step :=
  if now ≤ core.cursor then []
  else match core.record.powerState? with
    | some state => tellSegment ⟨core.cursor, now, state⟩ ++ [.change (.reported now)]
    | none => tellProgress (core.ownSegments now) ++
        ((bandSegments entry (core.ownReach now) now).flatMap tellSegment ++ [.change (.reported now)])

/-- The deeds of recording energy on a band. -/
def senseDeeds (core : Core) (config : Config) (now duration : Number) (on : Sensing)
    (isPrimary : Bool) : List Step :=
  match core.table.detection on.band (on.thresholdIn config) now duration with
  | .ok found =>
    let remaining := found.entry.busyEnd - now
    (if found.isLatest then [.change (.busy found.entry)] else []) ++
      if isPrimary && found.isLatest && !found.foundBusy && 0 < remaining then
        [.announce [.listeners ⟨.ccaBusyStart, [remaining]⟩]]
      else []
  | .error _ => []

end Core

namespace Transition
open Report

/-- The deeds of the report of a transition. -/
def reportDeeds (config : Config) (core : Core) : Transition → List Step
  | .transmit now _ _ _ _ on | .receive now _ on | .retune now _ on | .detectEnergy now _ on true
  | .fallAsleep now on | .wakeUp now _ on _ | .powerOff now on | .powerOn now _ on _
  | .flush now on => core.reportDeeds (core.entryOn config on) now
  | .completeReception now .. | .loseReception now .. | .abortReception now _ =>
    tellProgress (core.ownSegments now)
  | .continueReception .. | .detectEnergy _ _ _ false => []

/-- The deeds of a transition once it has reported. -/
def enactDeeds (config : Config) (core : Core) (x : Transition) : List Step :=
  match x with
  | .transmit now duration ppdu power vector _ =>
    [.change (.transmitting now duration),
      .announce (sendingNotices ppdu vector ++ [.listeners ⟨.txStart, [duration, power]⟩])]
  | .receive now duration _ =>
    [.change (.receiving now duration), .announce [.listeners ⟨.rxStart, [duration]⟩]]
  | .retune now duration _ =>
    [.change (.switching now duration), .announce [.listeners ⟨.switchingStart, [duration]⟩]]
  | .continueReception .. => [.change .continued]
  | .completeReception now psdu info vector _ statuses =>
    [.change (.closed now),
      .announce ([.listeners ⟨.rxEndOk, []⟩] ++ receivedNotices psdu info vector statuses ++
        [.deliver (.ok psdu info vector statuses)])]
  | .loseReception now psdu snr =>
    [.change (.closed now),
      .announce ([.listeners ⟨.rxEndError, []⟩] ++ lostNotices psdu snr ++ [.deliver (.error psdu)])]
  | .abortReception now failure =>
    .change (.closed now) :: if failure then [.announce [.listeners ⟨.rxEndError, []⟩]] else []
  | .detectEnergy now duration on isPrimary =>
    core.senseDeeds config now duration on isPrimary ++ [.change (.stamped now)]
  | .fallAsleep now _ => [.change (.asleep now), .announce [.listeners ⟨.sleep, []⟩]]
  | .wakeUp now duration on isPrimary =>
    [.change (.awake now), .announce [.listeners ⟨.wakeup, []⟩]] ++
      if 0 < duration then core.senseDeeds config now duration on isPrimary else []
  | .powerOff now _ => [.change (.poweredOff now), .announce [.listeners ⟨.off, []⟩]]
  | .powerOn now duration on isPrimary =>
    [.change (.poweredOn now), .announce [.listeners ⟨.on, []⟩]] ++
      if 0 < duration then core.senseDeeds config now duration on isPrimary else []
  | .flush .. => []

/-- The deeds of a transition. -/
def deeds (config : Config) (core : Core) (x : Transition) : List Step :=
  x.reportDeeds config core ++ x.enactDeeds config core

end Transition

/-! ### Before and after each step -/

/-- `P` holds before the steps and after each of them. -/
def Throughout (P : Core → Prop) : List Step → Core → Prop
  | [], core => P core
  | step :: rest, core => P core ∧ Throughout P rest (coreAfter [step] core)

namespace Throughout

variable {P Q : Core → Prop} {steps more : List Step} {core : Core}

/-- It holds after each beginning of the steps. -/
theorem of_isPrefix (h : Throughout P steps core) (hpre : more <+: steps) : P (coreAfter more core) := by
  induction steps generalizing more core with
  | nil =>
    rw [List.prefix_nil.1 hpre]
    exact h
  | cons step rest ih =>
    obtain ⟨hcore, hrest⟩ := h
    cases more with
    | nil => exact hcore
    | cons step' more =>
      obtain ⟨rfl, hmore⟩ := List.cons_prefix_cons.1 hpre
      rw [show step' :: more = [step'] ++ more from rfl, coreAfter_append]
      exact ih hrest hmore

theorem last (h : Throughout P steps core) : P (coreAfter steps core) :=
  h.of_isPrefix List.prefix_rfl

theorem append (h : Throughout P steps core) (h' : Throughout P more (coreAfter steps core)) :
    Throughout P (steps ++ more) core := by
  induction steps generalizing core with
  | nil => exact h'
  | cons step rest ih =>
    rw [show step :: rest = [step] ++ rest from rfl, coreAfter_append] at h'
    exact ⟨h.1, ih h.2 h'⟩

theorem mono (h : Throughout P steps core) (hPQ : ∀ core, P core → Q core) :
    Throughout Q steps core := by
  induction steps generalizing core with
  | nil => exact hPQ _ h
  | cons step rest ih => exact ⟨hPQ _ h.1, ih h.2⟩

/-- Telling of a segment changes nothing. -/
theorem tellSegment (h : P core) (s : Segment) (h' : Throughout P more core) :
    Throughout P (Report.tellSegment s ++ more) core := by
  rw [Report.tellSegment]
  split
  · exact h'
  · exact ⟨h, h'⟩

theorem tellSegments (h : P core) (segments : List Segment) (h' : Throughout P more core) :
    Throughout P (segments.flatMap Report.tellSegment ++ more) core := by
  induction segments with
  | nil => exact h'
  | cons s rest ih =>
    rw [List.flatMap_cons, List.append_assoc]
    exact tellSegment h s ih

end Throughout

namespace Planning

variable {α β : Type}

/-- The piece does `ds` and answers `a`. It may also refuse, and has done a beginning of `ds` then. -/
def Follows (p : Planning α) (core : Core) (ds : List Step) (a : α) : Prop :=
  ∀ steps, ∃ more,
    (drawn p ⟨core, steps⟩ = (.ok a, ⟨coreAfter more core, steps ++ more⟩) ∧ deedsOf more = ds) ∨
      ∃ r, drawn p ⟨core, steps⟩ = (.error r, ⟨coreAfter more core, steps ++ more⟩) ∧
        deedsOf more <+: ds

namespace Follows

variable {p : Planning α} {f : α → Planning β} {core : Core} {ds ds' : List Step} {a : α} {b : β}

/-- What a plan does. -/
theorem plan (h : Follows p core ds a) :
    deedsOf (Planning.plan p core).steps <+: ds ∧
      ∀ a', (Planning.plan p core).outcome = .ok a' → deedsOf (Planning.plan p core).steps = ds := by
  have hplan : Planning.plan p core =
      ⟨(drawn p ⟨core, []⟩).2.steps, (drawn p ⟨core, []⟩).1⟩ := rfl
  obtain ⟨more, ⟨h, hds⟩ | ⟨r, h, hds⟩⟩ := h [] <;> rw [hplan, h]
  · exact ⟨hds ▸ List.prefix_rfl, fun _ _ => hds⟩
  · refine ⟨hds, ?_⟩
    rintro a' ⟨⟩

/-- A piece that does nothing and refuses makes a plan that does nothing. -/
theorem plan_of_error (h : Follows p core [] a) {r : Refusal}
    (he : (drawn p ⟨core, []⟩).1 = .error r) :
    deedsOf (Planning.plan (p >>= f) core).steps = [] := by
  have hplan : Planning.plan (p >>= f) core =
      ⟨(drawn (p >>= f) ⟨core, []⟩).2.steps, (drawn (p >>= f) ⟨core, []⟩).1⟩ := rfl
  rw [hplan, drawn_bind]
  obtain ⟨more, ⟨h, -⟩ | ⟨r', h, hds⟩⟩ := h [] <;> rw [h] at he ⊢
  · cases he
  · exact List.prefix_nil.1 hds

/-- The second piece goes on where the first ended, if this did not refuse. -/
theorem bind (hp : Follows p core ds a) (hf : Follows (f a) (coreAfter ds core) ds' b) :
    Follows (p >>= f) core (ds ++ ds') b := by
  intro steps
  obtain ⟨more, ⟨h, rfl⟩ | ⟨r, h, hds⟩⟩ := hp steps
  · rw [coreAfter_deedsOf] at hf
    obtain ⟨more', ⟨h', rfl⟩ | ⟨r, h', hds'⟩⟩ := hf (steps ++ more)
    · refine ⟨more ++ more', Or.inl ⟨?_, deedsOf_append ..⟩⟩
      rw [drawn_bind, h, onward, h', coreAfter_append, List.append_assoc]
    · refine ⟨more ++ more', Or.inr ⟨r, ?_, ?_⟩⟩
      · rw [drawn_bind, h, onward, h', coreAfter_append, List.append_assoc]
      · rw [deedsOf_append]
        exact (List.prefix_append_right_inj _).2 hds'
  · refine ⟨more, Or.inr ⟨r, ?_, hds.trans (List.prefix_append _ _)⟩⟩
    rw [drawn_bind, h, onward]

theorem ite {c : Prop} [Decidable c] {q : Planning α} (hp : c → Follows p core ds a)
    (hq : ¬c → Follows q core ds a) : Follows (if c then p else q) core ds a := by
  split
  · next h => exact hp h
  · next h => exact hq h

/-- A piece that is left out under a condition, with more to come. -/
theorem guarded {c : Prop} [Decidable c] {p : Planning Unit} {f : Unit → Planning Unit}
    {ds ds' : List Step} (hp : Follows p core ds ())
    (hf : Follows (f ()) (coreAfter (if c then ds else []) core) ds' ()) :
    Follows (if c then p >>= f else f ()) core ((if c then ds else []) ++ ds') () := by
  by_cases hc : c
  · simp only [if_pos hc] at hf ⊢
    exact hp.bind hf
  · simp only [if_neg hc] at hf ⊢
    exact hf

end Follows

/-- A piece that does nothing, with more to come. -/
theorem Follows.then {p : Planning α} {f : α → Planning β} {core : Core} {ds : List Step} {a : α}
    {b : β} (hp : Follows p core [] a) (hf : Follows (f a) core ds b) :
    Follows (p >>= f) core ds b :=
  hp.bind hf

theorem follows_pure (a : α) (core : Core) : Follows (pure a) core [] a :=
  fun steps => ⟨[], Or.inl ⟨by rw [List.append_nil]; rfl, rfl⟩⟩

theorem follows_core (core : Core) : Follows Planning.core core [] core :=
  fun steps => ⟨[], Or.inl ⟨by rw [List.append_nil]; rfl, rfl⟩⟩

theorem follows_change (c : Change) (core : Core) : Follows (change c) core [.change c] () :=
  fun _ => ⟨[.change c], Or.inl ⟨rfl, rfl⟩⟩

theorem follows_announce (ns : List Notice) (core : Core) :
    Follows (announce ns) core [.announce ns] () :=
  fun _ => ⟨[.announce ns], Or.inl ⟨rfl, rfl⟩⟩

theorem follows_log (m : Log.Message) (core : Core) : Follows (log m) core [] () :=
  fun _ => ⟨[.log m], Or.inl ⟨rfl, rfl⟩⟩

theorem follows_refuse (operation : String) (cause : Cause) (core : Core) (ds : List Step) (a : α) :
    Follows (refuse operation cause) core ds a :=
  fun _ => ⟨[.log (refusalMessage ⟨operation, cause⟩)], Or.inr ⟨_, rfl, List.nil_prefix⟩⟩

theorem follows_throw (r : Refusal) (core : Core) (ds : List Step) (a : α) :
    Follows (throw r) core ds a :=
  fun steps => ⟨[], Or.inr ⟨r, by rw [List.append_nil]; rfl, List.nil_prefix⟩⟩

/-- A check does nothing, with more to come if it passes. -/
theorem follows_check_bind {result : Except Refusal α} {f : α → Planning β} {core : Core}
    {ds : List Step} {b : β} (h : ∀ a, result = .ok a → Follows (f a) core ds b) :
    Follows (check result >>= f) core ds b := by
  cases result with
  | ok a => exact (follows_pure a core).bind (h a rfl)
  | error r =>
    have hbind : check (.error r) >>= f = (throw r : Planning β) := rfl
    rw [hbind]
    exact follows_throw r core ds b

theorem follows_check (result : Except Refusal Unit) (core : Core) :
    Follows (check result) core [] () := by
  rw [← bind_pure (check result)]
  exact follows_check_bind fun _ _ => follows_pure () core

/-- A refusal under a condition, with more to come. -/
theorem follows_refuse_then {c : Prop} [Decidable c] {operation : String} {cause : Cause}
    {f : Unit → Planning Unit} {core : Core} {ds : List Step} (h : Follows (f ()) core ds ()) :
    Follows (if c then refuse operation cause >>= f else f ()) core ds () :=
  Follows.ite (fun _ => (follows_refuse operation cause core [] ()).bind h) fun _ => h

theorem follows_refuse_if {c : Prop} [Decidable c] {operation : String} {cause : Cause} {core : Core} :
    Follows (if c then refuse operation cause else pure ()) core [] () :=
  Follows.ite (fun _ => follows_refuse _ _ _ _ _) fun _ => follows_pure () core

theorem follows_refuse_unless {c : Prop} [Decidable c] {operation : String} {cause : Cause}
    {core : Core} : Follows (if c then pure () else refuse operation cause) core [] () :=
  Follows.ite (fun _ => follows_pure () core) fun _ => follows_refuse _ _ _ _ _

/-! ### The checks do nothing -/

variable {config : Config} {core : Core}

theorem follows_state_bind {now : Number} {band : Band} {threshold : Number}
    {f : Radio.State → Planning Unit} (h : ∀ state, Follows (f state) core [] ()) :
    Follows (stateOn now band threshold >>= f) core [] () := by
  rw [stateOn, bind_assoc]
  exact (follows_core core).then (follows_check_bind fun state _ => h state)

theorem follows_checkRequest (x : Transition) : Follows (checkRequest x) core [] () := by
  refine (follows_refuse_unless (c := x.time.isTime)).then ((follows_core core).then
    (follows_refuse_then ?_))
  cases x.sensing? with
  | none => exact follows_pure () core
  | some on =>
    exact follows_check _ core

theorem follows_checkArguments (x : Transition) : Follows x.checkArguments core [] () := by
  cases x with
  | transmit => exact follows_refuse_unless.then (follows_refuse_then follows_refuse_if)
  | receive | retune | detectEnergy | wakeUp | powerOn => exact follows_refuse_unless
  | completeReception => exact follows_refuse_if
  | continueReception | loseReception | abortReception | fallAsleep | powerOff | flush =>
    exact follows_pure () core

theorem follows_checkState (x : Transition) : Follows (x.checkState config) core [] () := by
  cases x with
  | transmit | receive | retune | detectEnergy | fallAsleep | wakeUp | powerOn =>
    exact follows_state_bind fun _ => follows_refuse_if
  | continueReception | completeReception | loseReception | abortReception =>
    exact (follows_core core).then follows_refuse_if
  | powerOff | flush => exact follows_pure () core

/-! ### What is done once they have passed -/

open Report

theorem follows_reportSegment (s : Segment) (core : Core) :
    Follows (reportSegment s) core (tellSegment s) () := by
  rw [reportSegment, tellSegment]
  split
  · exact follows_pure () core
  · exact follows_announce _ core

theorem follows_reportSegments (segments : List Segment) (core : Core) :
    Follows (reportSegments segments) core (segments.flatMap tellSegment) () := by
  induction segments with
  | nil => exact follows_pure () core
  | cons s rest ih =>
    refine (follows_reportSegment s core).bind ?_
    rw [coreAfter_tellSegment]
    exact ih

theorem follows_reportProgress (segments : List Segment) (core : Core) :
    Follows (reportProgress segments) core (tellProgress segments) () := by
  induction segments generalizing core with
  | nil => exact follows_pure () core
  | cons s rest ih =>
    rw [tellProgress_cons]
    refine (follows_reportSegment s core).bind ?_
    rw [coreAfter_tellSegment]
    exact (follows_change _ core).bind (ih _)

theorem follows_reportOwn (now : Number) (core : Core) :
    Follows (reportOwn now) core (tellProgress (core.ownSegments now)) (core.ownReach now) := by
  rw [← List.append_nil (tellProgress _)]
  exact (follows_core core).then ((follows_reportProgress _ core).bind (follows_pure _ _))

theorem follows_reportUntil (now : Number) (on : Sensing) :
    Follows (reportUntil now on.band (on.thresholdIn config)) core
      (core.reportDeeds (core.entryOn config on) now) () := by
  refine (follows_core core).then ?_
  rw [Core.reportDeeds]
  split
  · exact follows_pure () core
  · cases core.record.powerState? with
    | some state =>
      exact (follows_reportSegment _ core).bind (follows_change (.reported now) _)
    | none =>
      refine (follows_reportOwn now core).bind (follows_check_bind fun entry hentry => ?_)
      rw [Core.entryOn, hentry]
      exact (follows_reportSegments _ _).bind (follows_change (.reported now) _)

theorem follows_report (x : Transition) :
    Follows (x.report config) core (x.reportDeeds config core) () := by
  cases x with
  | transmit | receive | retune | fallAsleep | wakeUp | powerOff | powerOn | flush =>
    exact follows_reportUntil _ _
  | detectEnergy now duration on isPrimary =>
    cases isPrimary with
    | true => exact follows_reportUntil _ _
    | false => exact follows_pure () core
  | completeReception now | loseReception now | abortReception now =>
    rw [Transition.reportDeeds, ← List.append_nil (tellProgress _)]
    exact (follows_reportOwn now core).bind (follows_pure () _)
  | continueReception => exact follows_pure () core

theorem follows_noteTransition (operation : String) (now : Number) (duration : Option Number)
    (details : Details) (core : Core) :
    Follows (noteTransition config operation now duration details) core [] () :=
  Follows.ite (fun _ => follows_log _ core) fun _ => follows_pure () core

theorem follows_noteContinuation (now : Number) (psdu : Psdu) (info : SignalInfo) (vector : TxVector)
    (core : Core) : Follows (noteContinuation config now psdu info vector) core [] () :=
  Follows.ite (fun _ => (follows_core core).then (follows_log _ core)) fun _ => follows_pure () core

theorem follows_senseEnergy (now duration : Number) (on : Sensing) (isPrimary : Bool) (core : Core) :
    Follows (senseEnergy config now duration on.band isPrimary (on.thresholdIn config)) core
      (core.senseDeeds config now duration on isPrimary) () := by
  refine (follows_core core).then (follows_check_bind fun found hfound => ?_)
  rw [Core.senseDeeds, hfound]
  refine (follows_change _ core).guarded ?_
  refine Follows.ite (fun _ => (follows_log _ _).then ?_) fun _ => ?_
  all_goals
    dsimp only
    split
    · exact follows_announce _ _
    · exact follows_pure () _

theorem follows_enact (x : Transition) (core : Core) :
    Follows (x.enact config) core (x.enactDeeds config core) () := by
  cases x with
  | transmit | receive | retune | fallAsleep | powerOff | completeReception | loseReception =>
    exact (follows_change _ core).bind ((follows_noteTransition _ _ _ _ _).then (follows_announce _ _))
  | continueReception => exact (follows_change _ core).bind (follows_noteContinuation _ _ _ _ _)
  | abortReception now failure =>
    refine (follows_change _ core).bind ((follows_noteTransition _ _ _ _ _).then ?_)
    cases failure
    · exact follows_pure () _
    · exact follows_announce _ _
  | detectEnergy => exact (follows_senseEnergy _ _ _ _ _).bind (follows_change _ _)
  | wakeUp now duration on | powerOn now duration on =>
    refine (follows_change _ core).bind ((follows_core _).then ((follows_noteTransition _ _ _ _ _).then
      ((follows_announce _ _).bind ?_)))
    split
    · exact follows_senseEnergy _ _ _ _ _
    · exact follows_pure () _
  | flush => exact follows_pure () core

end Planning

/-! ### Whole transitions -/

namespace Transition
open Planning

variable {config : Config} {core : Core}

/-- A report changes nothing but the cursor. -/
theorem coreAfter_reportDeeds (x : Transition) :
    coreAfter (x.reportDeeds config core) core = { core with cursor := x.cursorAfter core } := by
  have huntil : ∀ entry now, coreAfter (core.reportDeeds entry now) core =
      { core with cursor := core.cursorUntil now } := by
    intro entry now
    rw [Core.reportDeeds, Core.cursorUntil]
    split
    · rfl
    · cases core.record.powerState? with
      | some state =>
        rw [coreAfter_append, Report.coreAfter_tellSegment]
        rfl
      | none =>
        rw [coreAfter_append, coreAfter_append, Report.coreAfter_tellSegments, Report.coreAfter_tellProgress]
        rfl
  cases x with
  | transmit | receive | retune | fallAsleep | wakeUp | powerOff | powerOn | flush => exact huntil _ _
  | detectEnergy now duration on isPrimary =>
    cases isPrimary with
    | true => exact huntil _ _
    | false => rfl
  | completeReception | loseReception | abortReception => exact Report.coreAfter_tellProgress ..
  | continueReception => rfl

/-- How far has been reported does not matter for what a transition does. -/
theorem enactDeeds_withCursor (x : Transition) (t : Number) :
    x.enactDeeds config { core with cursor := t } = x.enactDeeds config core := by
  cases x <;> rfl

/-- The plan of a transition does its deeds or, if it is refused, a beginning of them. -/
theorem deeds_plan (x : Transition) (config : Config) (core : Core) :
    deedsOf (x.plan config core).steps <+: x.deeds config core ∧
      ((x.plan config core).outcome = .ok () →
        deedsOf (x.plan config core).steps = x.deeds config core) := by
  have henact : Follows (x.enact config) (coreAfter (x.reportDeeds config core) core)
      (x.enactDeeds config core) () := by
    rw [coreAfter_reportDeeds, ← enactDeeds_withCursor x (x.cursorAfter core)]
    exact follows_enact x _
  have hall : Follows (do checkRequest x; x.body config) core (x.deeds config core) () :=
    (follows_checkRequest x).then ((follows_checkArguments x).then
      ((follows_checkState x).then ((follows_report x).bind henact)))
  exact ⟨hall.plan.1, hall.plan.2 ()⟩

/-- A transition that is not permitted does nothing. -/
theorem deeds_plan_of_not_permitted {x : Transition} (h : ¬x.Permitted config core) :
    deedsOf (x.plan config core).steps = [] := by
  obtain ⟨r, hr⟩ := (checks_body x).2 h
  obtain ⟨more, hdrawn, -⟩ := hr []
  have hchecks : Follows (do checkRequest x; x.checkArguments; x.checkState config) core [] () :=
    (follows_checkRequest x).then ((follows_checkArguments x).then (follows_checkState x))
  rw [plan_eq]
  exact hchecks.plan_of_error (congrArg Prod.fst hdrawn)

end Transition

/-- A tracker does the deeds of a transition, or a beginning of them, only if it is free to take it and the
transition is permitted. Otherwise it does nothing. -/
theorem Tracker.deeds_plan (t : Tracker) (x : Transition) :
    deedsOf (t.plan x).steps = [] ∨
      t.unavailable? = none ∧ x.Permitted t.config t.core ∧
        deedsOf (t.plan x).steps <+: x.deeds t.config t.core := by
  cases hu : t.unavailable? with
  | some cause =>
    rw [plan, hu]
    exact Or.inl rfl
  | none =>
    rw [plan_of_free hu]
    by_cases hp : x.Permitted t.config t.core
    · exact Or.inr ⟨rfl, hp, (x.deeds_plan t.config t.core).1⟩
    · exact Or.inl (Transition.deeds_plan_of_not_permitted hp)

/-- If it accepts the transition, it does all of them. -/
theorem Tracker.deeds_plan_of_accepted {t : Tracker} {x : Transition}
    (h : (t.plan x).outcome = .ok ()) :
    x.Permitted t.config t.core ∧ deedsOf (t.plan x).steps = x.deeds t.config t.core := by
  obtain ⟨hfree, hp⟩ := permitted_of_accepted h
  rw [plan_of_free hfree] at h ⊢
  exact ⟨hp, (x.deeds_plan t.config t.core).2 h⟩

end RadioOccupancy
