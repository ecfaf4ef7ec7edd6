import RadioOccupancy.Proofs.BusyTable
import RadioOccupancy.Proofs.Report
import RadioOccupancy.Tracker.Basic

/-!
What a transition asks for, and what it does where it gets it.

`Permitted` collects all that a transition is checked for. One that is not permitted is refused with
nothing changed or told (`plan_of_not_permitted`). One that is permitted, with a threshold that can be
used, is accepted (`plan_of_permitted`): it tells of the `segments` up to its time, and then of other
things, and makes of what the tracker remembers what `after` says.
-/

namespace RadioOccupancy

/-- The threshold of a request can be told apart from others. -/
def Sensing.IsUsable (s : Sensing) (config : Config) (core : Core) : Prop :=
  ∃ step, Threshold.step (s.thresholdIn config) core.table.resolution = .ok step

/-- The radio shows one of the states on the band of a request. -/
def Core.Shows (core : Core) (config : Config) (now : Number) (on : Sensing)
    (allowed : Radio.State → Prop) : Prop :=
  ∃ state, core.record.stateOn core.table on.band (on.thresholdIn config) now = .ok state ∧
    allowed state

/-- What the tracker remembers after energy on a band. -/
def Core.sensed (config : Config) (now duration : Number) (on : Sensing) (core : Core) : Core :=
  match Threshold.step (on.thresholdIn config) core.table.resolution with
  | .ok step => { core with table := core.table.detected on.band step now duration }
  | .error _ => core

section Sensed

variable (config : Config) (now duration : Number) (on : Sensing) (core : Core)

@[simp]
theorem Core.record_sensed : (core.sensed config now duration on).record = core.record := by
  unfold Core.sensed
  split <;> rfl

@[simp]
theorem Core.cursor_sensed : (core.sensed config now duration on).cursor = core.cursor := by
  unfold Core.sensed
  split <;> rfl

@[simp]
theorem Core.resolution_sensed :
    (core.sensed config now duration on).table.resolution = core.table.resolution := by
  unfold Core.sensed
  split
  · exact BusyTable.resolution_detected ..
  · rfl

end Sensed

/-- The entry of the band of a request, if there is one to be had. -/
def Core.entryOn (config : Config) (on : Sensing) (core : Core) : Option BusyEntry :=
  match core.table.get on.band (on.thresholdIn config) with
  | .ok entry => entry
  | .error _ => none

namespace Transition

/-- How long the thing lasts that a transition begins, if it begins one. -/
def duration? : Transition → Option Number
  | .transmit _ duration .. | .receive _ duration _ | .retune _ duration _
  | .detectEnergy _ duration .. | .wakeUp _ duration .. | .powerOn _ duration .. => some duration
  | .continueReception .. | .completeReception .. | .loseReception .. | .abortReception ..
  | .fallAsleep .. | .powerOff .. | .flush .. => none

/-- The band on which a transition records energy, if it records any. -/
def recordsOn? : Transition → Option Sensing
  | .detectEnergy _ _ on _ => some on
  | .wakeUp _ duration on _ | .powerOn _ duration on _ => if 0 < duration then some on else none
  | _ => none

/-- The arguments of a transition, apart from its time and its band, are such as it accepts. -/
def ArgumentsValid : Transition → Prop
  | .transmit _ duration ppdu power _ _ =>
    duration.isTime ∧ ppdu.parts.isEmpty = false ∧ power.isFinite
  | .receive _ duration _ | .retune _ duration _ | .detectEnergy _ duration _ _
  | .wakeUp _ duration _ _ | .powerOn _ duration _ _ => duration.isTime
  | .completeReception _ psdu _ _ _ statuses => statuses.length = psdu.packets.length
  | .continueReception .. | .loseReception .. | .abortReception .. | .fallAsleep .. | .powerOff ..
  | .flush .. => True

instance : DecidablePred ArgumentsValid
  | .transmit .. => inferInstanceAs (Decidable (_ ∧ _ ∧ _))
  | .receive .. | .retune .. | .detectEnergy .. | .wakeUp .. | .powerOn .. =>
    inferInstanceAs (Decidable (_ = true))
  | .completeReception .. => inferInstanceAs (Decidable (_ = _))
  | .continueReception .. | .loseReception .. | .abortReception .. | .fallAsleep .. | .powerOff ..
  | .flush .. => inferInstanceAs (Decidable True)

/-- The duration of a transition with valid arguments is one. -/
theorem isTime_of_duration? {x : Transition} (h : x.ArgumentsValid) :
    ∀ d ∈ x.duration?, d.isTime := by
  intro d hd
  cases x with
  | transmit =>
    obtain rfl := Option.mem_some_iff.1 hd
    exact h.1
  | receive | retune | detectEnergy | wakeUp | powerOn =>
    obtain rfl := Option.mem_some_iff.1 hd
    exact h
  | _ => simp [duration?] at hd

/-- The radio is in a state from which the transition is possible. -/
def MayBegin (config : Config) (core : Core) : Transition → Prop
  | .transmit now _ _ _ _ on => core.Shows config now on (· ∉ [.off, .sleep, .rx, .switching])
  | .receive now _ on => core.Shows config now on (· ∈ [.idle, .ccaBusy])
  | .retune now _ on => core.Shows config now on (· ∉ [.off, .sleep])
  | .detectEnergy now _ on _ | .fallAsleep now on => core.Shows config now on (· ∉ [.off])
  | .wakeUp now _ on _ => core.Shows config now on (· ∈ [.sleep])
  | .powerOn now _ on _ => core.Shows config now on (· ∈ [.off])
  | .continueReception now .. => core.record.hasOpenReception now ∧ ¬core.record.rx.stop ≤ now
  | .completeReception now .. | .loseReception now .. | .abortReception now _ =>
    core.record.hasOpenReception now
  | .powerOff .. | .flush .. => True

/-- All that a transition is checked for before anything is reported. -/
structure Permitted (config : Config) (core : Core) (x : Transition) : Prop where
  time : x.time.isTime
  order : ¬x.time < core.latest
  band : ∀ on ∈ x.sensing?, on.band.isValid
  arguments : x.ArgumentsValid
  state : x.MayBegin config core

/-- The segments that a transition reports. -/
def segments (config : Config) (core : Core) : Transition → List Segment
  | .transmit now _ _ _ _ on | .receive now _ on | .retune now _ on | .detectEnergy now _ on true
  | .fallAsleep now on | .wakeUp now _ on _ | .powerOff now on | .powerOn now _ on _
  | .flush now on => core.segmentsUntil (core.entryOn config on) now
  | .completeReception now .. | .loseReception now .. | .abortReception now _ =>
    core.ownSegments now
  | .continueReception .. | .detectEnergy _ _ _ false => []

/-- A transition records energy on the band that it names. -/
theorem sensing?_of_recordsOn? (x : Transition) {on : Sensing} (h : on ∈ x.recordsOn?) :
    on ∈ x.sensing? := by
  cases x with
  | detectEnergy => exact h
  | wakeUp now duration | powerOn now duration =>
    rw [recordsOn?] at h
    split at h
    · exact h
    · simp at h
  | _ => simp [recordsOn?] at h

/-- How far states have been reported after a transition. -/
def cursorAfter (core : Core) : Transition → Number
  | .transmit now .. | .receive now .. | .retune now .. | .detectEnergy now _ _ true
  | .fallAsleep now .. | .wakeUp now .. | .powerOff now .. | .powerOn now .. | .flush now .. =>
    core.cursorUntil now
  | .completeReception now .. | .loseReception now .. | .abortReception now _ => core.ownReach now
  | .continueReception .. | .detectEnergy _ _ _ false => core.cursor

/-- What a transition makes of what the tracker remembers once it has reported. -/
def enacted (config : Config) : Transition → Core → Core
  | .transmit now duration .., core => (Change.transmitting now duration).apply core
  | .receive now duration _, core => (Change.receiving now duration).apply core
  | .retune now duration _, core => (Change.switching now duration).apply core
  | .continueReception .., core => Change.continued.apply core
  | .completeReception now .., core | .loseReception now .., core | .abortReception now _, core =>
    (Change.closed now).apply core
  | .detectEnergy now duration on _, core =>
    (Change.stamped now).apply (core.sensed config now duration on)
  | .fallAsleep now _, core => (Change.asleep now).apply core
  | .wakeUp now duration on _, core =>
    let core := (Change.awake now).apply core
    if 0 < duration then core.sensed config now duration on else core
  | .powerOff now _, core => (Change.poweredOff now).apply core
  | .powerOn now duration on _, core =>
    let core := (Change.poweredOn now).apply core
    if 0 < duration then core.sensed config now duration on else core
  | .flush .., core => core

/-- What the tracker remembers after a transition. -/
def after (config : Config) (core : Core) (x : Transition) : Core :=
  x.enacted config { core with cursor := x.cursorAfter core }

end Transition

/-- The state change that a notice tells of, with its start and its duration. -/
def Notice.stateChange? : Notice → Option (Number × Number × Radio.State)
  | .trace (.stateChange start duration state) => some (start, duration, state)
  | _ => none

/-- The notice tells of something else than a state change. -/
def Notice.isTelling (n : Notice) : Bool :=
  n.stateChange?.isNone

namespace Planning

variable {config : Config} {core : Core}

/-! ### The checks -/

theorem checks_state_bind {now : Number} {band : Band} {threshold : Number}
    {f : Radio.State → Planning Unit} {c : Radio.State → Prop}
    (h : ∀ state, Checks (f state) core (c state)) :
    Checks (stateOn now band threshold >>= f) core
      (∃ state, core.record.stateOn core.table band threshold now = .ok state ∧ c state) := by
  have hstate : Draws (stateOn now band threshold) core
      (core.record.stateOn core.table band threshold now) core [] :=
    draws_core_bind (draws_check _ core)
  cases hs : core.record.stateOn core.table band threshold now with
  | error r =>
    rw [hs] at hstate
    exact ⟨by simp, fun _ => ⟨r, hstate.bind_error⟩⟩
  | ok state =>
    rw [hs] at hstate
    refine ⟨fun ⟨s, hs, hc⟩ => ?_, fun hc => ?_⟩
    · obtain rfl := Except.ok.inj hs
      exact hstate.bind ((h state).1 hc)
    · obtain ⟨r, hr⟩ := (h state).2 fun hc' => hc ⟨state, rfl, hc'⟩
      exact ⟨r, hstate.bind hr⟩

theorem checks_demandState (operation : String) (now : Number) (on : Sensing)
    (allowed : List Radio.State) :
    Checks (demandState operation now on.band (on.thresholdIn config) allowed) core
      (core.Shows config now on (· ∈ allowed)) :=
  checks_state_bind fun state => Checks.refuse_if.congr (by simp)

theorem checks_forbidStates (operation : String) (now : Number) (on : Sensing)
    (rejected : List Radio.State) :
    Checks (forbidStates operation now on.band (on.thresholdIn config) rejected) core
      (core.Shows config now on (· ∉ rejected)) :=
  checks_state_bind fun state => Checks.refuse_if.congr (by simp)

theorem checks_core_bind {f : Core → Planning Unit} {c : Prop} (h : Checks (f core) core c) :
    Checks (Planning.core >>= f) core c :=
  ⟨fun hc => draws_core_bind (h.1 hc), fun hc => (h.2 hc).imp fun _ => draws_core_bind⟩

theorem checks_demandReception (operation : String) (now : Number) :
    Checks (demandReception operation now) core (core.record.hasOpenReception now) :=
  checks_core_bind (Checks.refuse_if.congr (by simp))

theorem checks_demandContinuation (operation : String) (now : Number) :
    Checks (demandContinuation operation now) core
      (core.record.hasOpenReception now ∧ ¬core.record.rx.stop ≤ now) :=
  checks_core_bind (Checks.refuse_if.congr (by simp))

theorem checks_request (x : Transition) :
    Checks (checkRequest x) core
      (x.time.isTime ∧ ¬x.time < core.latest ∧ ∀ on ∈ x.sensing?, on.band.isValid) := by
  refine (checks_time x.name x.time core).bind (checks_core_bind (Checks.refuse_then ?_))
  cases x.sensing? with
  | none => exact Checks.pure.congr (by simp)
  | some on => exact (checks_band x.name on.band core).congr (by simp)

theorem checks_arguments (x : Transition) : Checks x.checkArguments core x.ArgumentsValid := by
  cases x with
  | transmit now duration ppdu power vector on =>
    exact (checks_duration _ duration core).bind
      ((Checks.refuse_then Checks.refuse_if).congr (by simp))
  | receive _ duration | retune _ duration | detectEnergy _ duration | wakeUp _ duration
  | powerOn _ duration => exact checks_duration _ duration core
  | completeReception => exact Checks.refuse_if.congr not_not
  | continueReception | loseReception | abortReception | fallAsleep | powerOff | flush =>
    exact Checks.pure

theorem checks_state (x : Transition) :
    Checks (x.checkState config) core (x.MayBegin config core) := by
  cases x with
  | transmit | retune | detectEnergy | fallAsleep => exact checks_forbidStates ..
  | receive | wakeUp | powerOn => exact checks_demandState ..
  | continueReception => exact checks_demandContinuation ..
  | completeReception | loseReception | abortReception => exact checks_demandReception ..
  | powerOff | flush => exact Checks.pure

/-! ### What is changed and told once the checks have passed -/

/-- The piece makes `core'` of `core` and tells observers of no state change. -/
def Enacts (p : Planning Unit) (core core' : Core) : Prop :=
  ∃ ns, Draws p core (.ok ()) core' ns ∧ ns.filterMap Notice.stateChange? = []

theorem Enacts.bind {p q : Planning Unit} {core core₁ core₂ : Core} (hp : Enacts p core core₁)
    (hq : Enacts q core₁ core₂) : Enacts (p >>= fun _ => q) core core₂ := by
  obtain ⟨ns, hp, hns⟩ := hp
  obtain ⟨ms, hq, hms⟩ := hq
  exact ⟨ns ++ ms, hp.bind hq, by rw [List.filterMap_append, hns, hms, List.append_nil]⟩

/-- A piece that is left out under a condition, with more to come. -/
theorem Enacts.guarded {b : Prop} [Decidable b] {p : Planning Unit} {f : Unit → Planning Unit}
    {core core₁ core₂ : Core} (hp : Enacts p core core₁)
    (hf : Enacts (f ()) (if b then core₁ else core) core₂) :
    Enacts (if b then p >>= f else f ()) core core₂ := by
  by_cases hb : b
  · rw [if_pos hb] at hf ⊢
    exact hp.bind hf
  · rwa [if_neg hb] at hf ⊢

theorem Enacts.ite {b : Prop} [Decidable b] {p q : Planning Unit} {core core' : Core}
    (hp : Enacts p core core') (hq : Enacts q core core') : Enacts (if b then p else q) core core' := by
  split
  · exact hp
  · exact hq

theorem enacts_pure (core : Core) : Enacts (pure ()) core core :=
  ⟨[], draws_pure () core, rfl⟩

theorem enacts_change (c : Change) (core : Core) : Enacts (change c) core (c.apply core) :=
  ⟨[], draws_change c core, rfl⟩

theorem enacts_log (m : Log.Message) (core : Core) : Enacts (log m) core core :=
  ⟨[], draws_log m core, rfl⟩

theorem enacts_announce {ns : List Notice} (h : ns.filterMap Notice.stateChange? = []) (core : Core) :
    Enacts (announce ns) core core :=
  ⟨ns, draws_announce ns core, h⟩

theorem enacts_tellListeners (method : ListenerMethod) (args : List Number) (core : Core) :
    Enacts (tellListeners method args) core core :=
  enacts_announce rfl core

/-- Looking at what the tracker will remember by now tells nothing. -/
theorem enacts_core_bind {f : Core → Planning Unit} {core core' : Core}
    (h : Enacts (f core) core core') : Enacts (Planning.core >>= f) core core' := by
  obtain ⟨ns, h, hns⟩ := h
  exact ⟨ns, draws_core_bind h, hns⟩

theorem enacts_noteTransition (operation : String) (now : Number) (duration : Option Number)
    (details : Details) : Enacts (noteTransition config operation now duration details) core core := by
  unfold noteTransition
  exact (enacts_log _ core).ite (enacts_pure core)

theorem enacts_noteContinuation (now : Number) (psdu : Psdu) (info : SignalInfo) (vector : TxVector) :
    Enacts (noteContinuation config now psdu info vector) core core := by
  unfold noteContinuation
  exact (enacts_core_bind (enacts_log _ core)).ite (enacts_pure core)

/-- A check that passes tells nothing. -/
theorem enacts_check_bind {α : Type} {f : α → Planning Unit} {a : α} {core core' : Core}
    (h : Enacts (f a) core core') : Enacts (check (.ok a) >>= f) core core' := by
  obtain ⟨ns, h, hns⟩ := h
  exact ⟨ns, draws_check_bind h, hns⟩

theorem detection_eq (t : BusyTable) (band : Band) (threshold now duration : Number) :
    t.detection band threshold now duration =
      (Threshold.step threshold t.resolution).map fun step =>
        BusyTable.detectionBeside (t.find? band step) band step now duration := by
  rw [BusyTable.detection]
  cases Threshold.step threshold t.resolution <;> rfl

/-- Energy is recorded, and at most listeners hear of it. -/
theorem enacts_senseEnergy {now duration : Number} {on : Sensing} (h : on.IsUsable config core)
    (isPrimary : Bool) :
    Enacts (senseEnergy config now duration on.band isPrimary (on.thresholdIn config)) core
      (core.sensed config now duration on) := by
  obtain ⟨step, h⟩ := h
  have hd : core.table.detection on.band (on.thresholdIn config) now duration = .ok
      (BusyTable.detectionBeside (core.table.find? on.band step) on.band step now duration) := by
    rw [detection_eq, h]
    rfl
  have hsensed : core.sensed config now duration on =
      let found := BusyTable.detectionBeside (core.table.find? on.band step) on.band step now duration
      if found.isLatest then (Change.busy found.entry).apply core else core := by
    unfold Core.sensed BusyTable.detected
    rw [h]
    dsimp only
    split <;> rfl
  unfold senseEnergy
  rw [hsensed]
  refine enacts_core_bind ?_
  rw [hd]
  refine enacts_check_bind ((enacts_change _ core).guarded ((enacts_log _ _).guarded ?_))
  rw [ite_self]
  exact (enacts_tellListeners _ _ _).ite (enacts_pure _)

/-- Packets are no state changes. -/
theorem stateChange?_receivedNotices (psdu : Psdu) (info : SignalInfo) (vector : TxVector)
    (statuses : List Bool) :
    (Transition.receivedNotices psdu info vector statuses).filterMap Notice.stateChange? = [] := by
  rw [List.filterMap_eq_nil_iff]
  intro n hn
  obtain ⟨⟨packet, received⟩, -, hn⟩ := List.mem_filterMap.1 hn
  cases received with
  | false => simp at hn
  | true =>
    obtain rfl := Option.some.inj hn
    rfl

theorem stateChange?_lostNotices (psdu : Psdu) (snr : Number) :
    (Transition.lostNotices psdu snr).filterMap Notice.stateChange? = [] := by
  rw [Transition.lostNotices, List.filterMap_map]
  exact List.filterMap_eq_nil_iff.2 fun _ _ => rfl

theorem stateChange?_sendingNotices (ppdu : Ppdu) (vector : TxVector) :
    (Transition.sendingNotices ppdu vector).filterMap Notice.stateChange? = [] := by
  rw [Transition.sendingNotices, List.filterMap_map]
  exact List.filterMap_eq_nil_iff.2 fun _ _ => rfl

/-- What is changed and told, for each transition. -/
theorem enacts_enact (x : Transition) (h : ∀ on ∈ x.recordsOn?, on.IsUsable config core) :
    Enacts (x.enact config) core (x.enacted config core) := by
  cases x with
  | transmit =>
    refine (enacts_change _ core).bind ((enacts_noteTransition ..).bind (enacts_announce ?_ _))
    rw [List.filterMap_append, stateChange?_sendingNotices]
    rfl
  | receive | retune | fallAsleep | powerOff =>
    exact (enacts_change _ core).bind ((enacts_noteTransition ..).bind (enacts_tellListeners ..))
  | continueReception => exact (enacts_change _ core).bind (enacts_noteContinuation ..)
  | completeReception =>
    refine (enacts_change _ core).bind ((enacts_noteTransition ..).bind (enacts_announce ?_ _))
    rw [List.filterMap_append, List.filterMap_append, stateChange?_receivedNotices]
    rfl
  | loseReception =>
    refine (enacts_change _ core).bind ((enacts_noteTransition ..).bind (enacts_announce ?_ _))
    rw [List.filterMap_append, List.filterMap_append, stateChange?_lostNotices]
    rfl
  | abortReception =>
    exact (enacts_change _ core).bind ((enacts_noteTransition ..).bind
      ((enacts_tellListeners ..).ite (enacts_pure _)))
  | detectEnergy _ _ on isPrimary =>
    exact (enacts_senseEnergy (h on rfl) isPrimary).bind (enacts_change _ _)
  | wakeUp now duration on isPrimary | powerOn now duration on isPrimary =>
    refine (enacts_change _ core).bind (enacts_core_bind ((enacts_noteTransition ..).bind
      ((enacts_tellListeners ..).bind ?_)))
    rw [Transition.enacted]
    split
    · next hpos =>
      refine enacts_senseEnergy ?_ isPrimary
      exact h on (if_pos hpos)
    · exact enacts_pure _
  | flush => exact enacts_pure core

/-! ### Whole transitions -/

theorem checks_body (x : Transition) :
    Checks (do checkRequest x; x.checkArguments; x.checkState config) core
      (x.Permitted config core) := by
  refine ((checks_request x).bind ((checks_arguments x).bind (checks_state x))).congr ?_
  exact ⟨fun ⟨⟨h₁, h₂, h₃⟩, h₄, h₅⟩ => ⟨h₁, h₂, h₃, h₄, h₅⟩,
    fun ⟨h₁, h₂, h₃, h₄, h₅⟩ => ⟨⟨h₁, h₂, h₃⟩, h₄, h₅⟩⟩

theorem get_eq {t : BusyTable} {band : Band} {threshold step : Number}
    (h : Threshold.step threshold t.resolution = .ok step) :
    t.get band threshold = .ok (t.find? band step) := by
  rw [BusyTable.get, h]
  rfl

/-- Where a threshold can be used, looking it up finds the entry of the band. -/
theorem get_entryOn {on : Sensing} (h : on.IsUsable config core) :
    core.table.get on.band (on.thresholdIn config) = .ok (core.entryOn config on) := by
  obtain ⟨step, hstep⟩ := h
  rw [Core.entryOn, get_eq hstep]

/-- The report of each transition. -/
theorem draws_report (x : Transition) (h : ∀ on ∈ x.sensing?, on.IsUsable config core) :
    Draws (x.report config) core (.ok ()) { core with cursor := x.cursorAfter core }
      (Report.notices (x.segments config core)) := by
  have huntil : ∀ on ∈ x.sensing?, ∀ now, Draws (reportUntil now on.band (on.thresholdIn config)) core
      (.ok ()) { core with cursor := core.cursorUntil now }
      (Report.notices (core.segmentsUntil (core.entryOn config on) now)) := by
    exact fun on hon now => draws_reportUntil fun _ _ => get_entryOn (h on hon)
  cases x with
  | transmit | receive | retune | fallAsleep | wakeUp | powerOff | powerOn | flush =>
    exact huntil _ rfl _
  | detectEnergy now duration on isPrimary =>
    cases isPrimary with
    | true => exact huntil _ rfl _
    | false => exact draws_pure () core
  | completeReception now | loseReception now | abortReception now =>
    rw [← List.append_nil (Report.notices _)]
    exact (draws_reportOwn now core).bind (draws_pure () _)
  | continueReception => exact draws_pure () core

end Planning

/-- The state changes that observers are told of when segments are reported. -/
def Report.told (segments : List Segment) : List (Number × Number × Radio.State) :=
  (segments.filter fun s => !s.isEmpty).map fun s => (s.start, s.stop - s.start, s.state)

theorem Report.stateChange?_notices (segments : List Segment) :
    (Report.notices segments).filterMap Notice.stateChange? = Report.told segments := by
  rw [Report.notices, Report.told, List.filterMap_map, ← List.filterMap_eq_map]
  rfl

/-- The state changes that a plan tells observers of. -/
def Plan.stateChanges {α : Type} (p : Plan α) : List (Number × Number × Radio.State) :=
  p.notices.filterMap Notice.stateChange?

namespace Transition
open Planning

variable {config : Config} {core : Core} {x : Transition}

/-- A plan begins with the checks. -/
theorem plan_eq (x : Transition) (config : Config) (core : Core) :
    x.plan config core = Planning.plan
      ((do checkRequest x; x.checkArguments; x.checkState config) >>= fun _ => do
        x.report config
        x.enact config) core := by
  simp only [plan, body, bind_assoc]

/-- A transition that is not permitted is refused, and nothing is changed or told. -/
theorem plan_of_not_permitted (h : ¬x.Permitted config core) :
    ∃ r, (x.plan config core).outcome = .error r ∧
      (x.plan config core).finalCore core = core ∧ (x.plan config core).notices = [] := by
  obtain ⟨r, hr⟩ := (checks_body x).2 h
  rw [plan_eq]
  exact ⟨r, hr.bind_error.plan⟩

/-- A transition that is permitted is accepted if its threshold can be used. It tells of the states
up to its time and does what it is there for. -/
theorem plan_of_permitted (h : x.Permitted config core)
    (hon : ∀ on ∈ x.sensing?, on.IsUsable config core) :
    (x.plan config core).outcome = .ok () ∧
      (x.plan config core).finalCore core = x.after config core ∧
      (x.plan config core).stateChanges = Report.told (x.segments config core) := by
  obtain ⟨ns, henact, hns⟩ : Enacts (x.enact config) { core with cursor := x.cursorAfter core }
      (x.after config core) := enacts_enact x fun on h => hon on (x.sensing?_of_recordsOn? h)
  have hrest : Draws (do x.report config; x.enact config) core (.ok ()) (x.after config core)
      (Report.notices (x.segments config core) ++ ns) := (draws_report x hon).bind henact
  obtain ⟨hout, hcore, hnotices⟩ :=
    (((checks_body x).1 h).bind (f := fun _ => do x.report config; x.enact config) hrest).plan
  rw [plan_eq, Plan.stateChanges]
  refine ⟨hout, hcore, ?_⟩
  rw [hnotices, List.nil_append, List.filterMap_append, hns, List.append_nil, Report.stateChange?_notices]

/-- A transition whose threshold can be used is accepted just if it is permitted. -/
theorem outcome_iff (hon : ∀ on ∈ x.sensing?, on.IsUsable config core) :
    (x.plan config core).outcome = .ok () ↔ x.Permitted config core := by
  refine ⟨fun h => ?_, fun h => (plan_of_permitted h hon).1⟩
  by_contra hp
  obtain ⟨r, hr, -⟩ := plan_of_not_permitted hp
  rw [h] at hr
  cases hr

end Transition

namespace Tracker

variable {t : Tracker} {x : Transition}

theorem plan_of_free (h : t.unavailable? = none) (x : Transition) : t.plan x = x.plan t.config t.core := by
  rw [plan, h]

/-- A tracker that accepts a transition is free to take it and permits it. -/
theorem permitted_of_accepted (h : (t.plan x).outcome = .ok ()) :
    t.unavailable? = none ∧ x.Permitted t.config t.core := by
  cases hu : t.unavailable? with
  | some cause =>
    rw [plan, hu] at h
    cases h
  | none =>
    rw [plan_of_free hu] at h
    refine ⟨rfl, ?_⟩
    by_contra hp
    obtain ⟨r, hr, -⟩ := Transition.plan_of_not_permitted hp
    rw [h] at hr
    cases hr

end Tracker

end RadioOccupancy
