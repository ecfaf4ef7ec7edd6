import RadioOccupancy.Proofs.ErrorLog
import RadioOccupancy.Proofs.Idleness
import RadioOccupancy.Proofs.Quiet
import RadioOccupancy.Proofs.Refinement
import RadioOccupancy.Proofs.Refusal

/-!
Which thresholds that are not finite are refused.

    transition   checks the state   reports                    records energy
                 own state? no      since the cursor? awake?   yes
    state        own state? no
    time to idleness, time since busy: always

A threshold is looked at where the busy table is, and nowhere else. So it is found out there that it is not
finite, and where the busy table is not needed it is not found out at all. What a request does with a
threshold that is not finite is therefore what it does with another, unless it looks at the threshold
(`Tracker.refuses_threshold_iff`).
-/

namespace RadioOccupancy

/-- The same band, with a threshold. -/
def Sensing.withThreshold (on : Sensing) (threshold : Number) : Sensing :=
  { on with threshold := some threshold }

namespace Transition

/-- The same transition, with a threshold if it takes one. -/
def withThreshold (x : Transition) (threshold : Number) : Transition :=
  match x with
  | .transmit now duration ppdu power vector on =>
    .transmit now duration ppdu power vector (on.withThreshold threshold)
  | .receive now duration on => .receive now duration (on.withThreshold threshold)
  | .retune now duration on => .retune now duration (on.withThreshold threshold)
  | .detectEnergy now duration on isPrimary =>
    .detectEnergy now duration (on.withThreshold threshold) isPrimary
  | .fallAsleep now on => .fallAsleep now (on.withThreshold threshold)
  | .wakeUp now duration on isPrimary => .wakeUp now duration (on.withThreshold threshold) isPrimary
  | .powerOff now on => .powerOff now (on.withThreshold threshold)
  | .powerOn now duration on isPrimary => .powerOn now duration (on.withThreshold threshold) isPrimary
  | .flush now on => .flush now (on.withThreshold threshold)
  | .continueReception .. | .completeReception .. | .loseReception .. | .abortReception .. => x

/-- The band whose state a transition asks for before it begins, if it asks for one. -/
def checksOn? : Transition → Option Sensing
  | .powerOff .. | .flush .. => none
  | x => x.sensing?

/-- The transition looks at its threshold: for the state from which it begins, or afterwards. -/
def LooksAtThreshold (core : Core) (x : Transition) : Prop :=
  (x.checksOn?.isSome ∧ core.record.ownState? x.time = none) ∨ x.NeedsThreshold core

end Transition

namespace TrackerRequest

/-- The same request, with a threshold if it takes one. -/
def withThreshold (q : TrackerRequest) (threshold : Number) : TrackerRequest :=
  match q with
  | .ask question now on => .ask question now (on.withThreshold threshold)
  | .transition x => .transition (x.withThreshold threshold)
  | _ => q

/-- The request looks at its threshold. The state of a band needs it only where the radio is idle by itself.
-/
def LooksAtThreshold (t : Tracker) : TrackerRequest → Prop
  | .ask .state now _ | .ask (.isState _) now _ => t.core.record.ownState? now = none
  | .ask .timeToIdle _ _ | .ask .timeSinceBusy _ _ => True
  | .transition x => x.LooksAtThreshold t.core
  | _ => False

end TrackerRequest

/-! ### Transitions -/

/-- A threshold that is not finite, wherever it is looked at. -/
theorem Threshold.step_of_not_isFinite {dbm : Number} (h : ¬dbm.isFinite) (resolution : Number) :
    step dbm resolution = .error ⟨"quantizeThreshold", .threshold dbm⟩ := by
  rw [step, if_pos]
  simpa using h

/-- What the radio does by itself shows on all bands and at all thresholds. -/
theorem Core.Shows.of_own {core : Core} {config : Config} {now : Number} {on other : Sensing}
    {allowed : Radio.State → Prop} (h : core.Shows config now on allowed)
    (hown : core.record.ownState? now ≠ none) : core.Shows config now other allowed := by
  obtain ⟨s, hs⟩ := Option.ne_none_iff_exists'.1 hown
  obtain ⟨state, hstate, hallowed⟩ := h
  rw [Record.stateOn_of_own hs] at hstate
  exact ⟨state, (Record.stateOn_of_own hs).trans hstate, hallowed⟩

namespace Transition
open Planning

variable {config : Config} {core : Core} {x : Transition} {threshold other : Number}

theorem sensing?_withThreshold : (x.withThreshold threshold).sensing? =
    x.sensing?.map (·.withThreshold threshold) := by
  cases x <;> rfl

theorem needsThreshold_withThreshold :
    (x.withThreshold threshold).NeedsThreshold core ↔ x.NeedsThreshold core := by
  cases x with
  | detectEnergy now duration on isPrimary => cases isPrimary <;> exact Iff.rfl
  | wakeUp now duration on | powerOn now duration on =>
    simp only [NeedsThreshold, withThreshold, recordsOn?]
    split <;> exact Iff.rfl
  | _ => exact Iff.rfl

/-- A transition without a threshold looks at none. -/
theorem not_looksAtThreshold (h : x.sensing? = none) : ¬x.LooksAtThreshold core := by
  cases x with
  | continueReception | completeReception | loseReception | abortReception =>
    simp [LooksAtThreshold, NeedsThreshold, checksOn?, reportsOn?, recordsOn?, sensing?]
  | _ => cases h

theorem withThreshold_of_none (h : x.sensing? = none) : x.withThreshold threshold = x := by
  cases x with
  | continueReception | completeReception | loseReception | abortReception => rfl
  | _ => cases h

/-- What is asked of a transition, but for the state of the radio, has nothing to do with its threshold. -/
theorem Permitted.unguarded (h : (x.withThreshold other).Permitted config core) :
    ((x.withThreshold threshold).time.isTime ∧ ¬(x.withThreshold threshold).time < core.latest ∧
      ∀ on ∈ (x.withThreshold threshold).sensing?, on.band.isValid) ∧
    (x.withThreshold threshold).ArgumentsValid := by
  have hband : ∀ on ∈ (x.withThreshold threshold).sensing?, on.band.isValid := by
    intro on hon
    rw [sensing?_withThreshold, Option.mem_map] at hon
    obtain ⟨on', hon', rfl⟩ := hon
    refine h.band (on'.withThreshold other) ?_
    rw [sensing?_withThreshold]
    exact Option.mem_map_of_mem _ hon'
  cases x <;> exact ⟨⟨h.time, h.order, hband⟩, h.arguments⟩

/-- A transition is permitted with any threshold if it is with one, and if what it begins from shows by
itself. -/
theorem Permitted.withThreshold (h : (x.withThreshold other).Permitted config core)
    (hown : ¬(x.checksOn?.isSome ∧ core.record.ownState? x.time = none)) :
    (x.withThreshold threshold).Permitted config core := by
  obtain ⟨⟨htime, horder, hband⟩, harguments⟩ := @Permitted.unguarded config core x threshold other h
  refine ⟨htime, horder, hband, harguments, ?_⟩
  cases x with
  | transmit | receive | retune | detectEnergy | fallAsleep | wakeUp | powerOn =>
    exact Core.Shows.of_own h.state fun hnone => hown ⟨rfl, hnone⟩
  | powerOff | flush => trivial
  | continueReception | completeReception | loseReception | abortReception => exact h.state

/-- Where the radio is idle by itself, the check of its state fails for a threshold that cannot be used. -/
theorem draws_checkState_error {on : Sensing} {r : Refusal} (hon : on ∈ x.checksOn?)
    (hown : core.record.ownState? x.time = none)
    (h : Threshold.step (on.thresholdIn config) core.table.resolution = .error r) :
    Draws (x.checkState config) core (.error r) core [] := by
  have hstate {now : Number} (hown : core.record.ownState? now = none) :
      Draws (stateOn now on.band (on.thresholdIn config)) core (.error r) core [] := by
    refine draws_core_bind ?_
    rw [Record.stateOn_error hown h]
    exact draws_check _ core
  cases x with
  | transmit | receive | retune | detectEnergy | fallAsleep | wakeUp | powerOn =>
    obtain rfl := Option.mem_some_iff.1 hon
    exact (hstate hown).bind_error
  | _ => cases hon

/-- A transition that is permitted with one threshold is refused with one that is not finite just if it looks
at it, and else it is accepted. -/
theorem outcome_withThreshold (hp : (x.withThreshold other).Permitted config core)
    (hinf : ¬threshold.isFinite) :
    (x.LooksAtThreshold core → ((x.withThreshold threshold).plan config core).outcome =
      .error ⟨"quantizeThreshold", .threshold threshold⟩) ∧
    (¬x.LooksAtThreshold core → ((x.withThreshold threshold).plan config core).outcome = .ok ()) := by
  cases hs : x.sensing? with
  | none =>
    rw [withThreshold_of_none hs] at hp ⊢
    exact ⟨fun hlooks => absurd hlooks (not_looksAtThreshold hs),
      fun _ => (plan_of_permitted hp (by simp [hs])).1⟩
  | some on =>
    have hon : on.withThreshold threshold ∈ (x.withThreshold threshold).sensing? := by
      rw [sensing?_withThreshold, hs]
      rfl
    have hstep : Threshold.step ((on.withThreshold threshold).thresholdIn config) core.table.resolution =
        .error ⟨"quantizeThreshold", .threshold threshold⟩ := Threshold.step_of_not_isFinite hinf _
    by_cases hstate : x.checksOn?.isSome ∧ core.record.ownState? x.time = none
    · refine ⟨fun _ => ?_, fun hlooks => absurd (Or.inl hstate) hlooks⟩
      obtain ⟨on', hon'⟩ := Option.isSome_iff_exists.1 hstate.1
      have hchecks : on.withThreshold threshold ∈ (x.withThreshold threshold).checksOn? := by
        cases x with
        | powerOff | flush => cases hon'
        | _ => exact hon
      have htime : (x.withThreshold threshold).time = x.time := by cases x <;> rfl
      obtain ⟨hrequest, harguments⟩ := @Permitted.unguarded config core x threshold other hp
      have hfails : Draws (do
          checkRequest (x.withThreshold threshold)
          (x.withThreshold threshold).checkArguments
          (x.withThreshold threshold).checkState config) core _ core _ :=
        ((checks_request _).1 hrequest).bind
          (((checks_arguments _).1 harguments).bind (draws_checkState_error hchecks (htime ▸ hstate.2) hstep))
      rw [plan_eq, hfails.bind_error.plan.1]
    · have hperm : (x.withThreshold threshold).Permitted config core := hp.withThreshold hstate
      obtain ⟨haccepted, hrefused⟩ := draws_unusable hperm hon hstep
      rw [needsThreshold_withThreshold] at haccepted hrefused
      refine ⟨fun hlooks => ?_, fun hlooks => ?_⟩
      · obtain ⟨core', ns, hdraws, -⟩ := hrefused (hlooks.resolve_left hstate)
        rw [plan_eq, (((checks_body _).1 hperm).bind (f := fun _ => _) hdraws).plan.1]
      · obtain ⟨core', ns, hdraws⟩ := haccepted fun hneeds => hlooks (Or.inr hneeds)
        rw [plan_eq, (((checks_body _).1 hperm).bind (f := fun _ => _) hdraws).plan.1]

end Transition

/-! ### Questions -/

namespace Record

variable {r : Record} {table : BusyTable} {band : Band} {threshold now : Number} {refusal : Refusal}

/-- There is no time to idleness for a threshold that cannot be used, whatever the radio does by itself. -/
theorem timeToIdle_unusable (hp : r.powerState? = none)
    (h : Threshold.step threshold table.resolution = .error refusal) :
    r.timeToIdle table band threshold now = .error refusal := by
  cases hown : r.ownState? now with
  | none =>
    rw [timeToIdle, stateOn_error hown h]
    rfl
  | some s =>
    have hawake : s.isPowerSaving = false := by
      rw [ownState?, hp] at hown
      exact isPowerSaving_activity? hown
    rw [timeToIdle, stateOn_of_own hown, Planning.get_error h]
    cases s with
    | sleep | off => cases hawake
    | _ => rfl

theorem timeSinceBusy_unusable (h : Threshold.step threshold table.resolution = .error refusal) :
    r.timeSinceBusy table band threshold now = .error refusal := by
  rw [timeSinceBusy, Planning.get_error h]
  rfl

end Record

/-- A question that is answered was asked at a time, and about a band. -/
theorem Query.valid_of_ok {α : Type} {operation : String} {now : Number} {band : Band} {rest : Planning α}
    {core : Core} {a : α}
    (h : (Planning.plan (do
      Planning.checkTime operation now
      Planning.check (band.check operation)
      rest) core).outcome = .ok a) : now.isTime ∧ band.isValid := by
  by_contra hinvalid
  have hrefused {r : Refusal} {core' : Core} {ns : List Notice}
      (hdraws : Planning.Draws (do
        Planning.checkTime operation now
        Planning.check (band.check operation)
        rest) core (.error r) core' ns) : False := by
    rw [hdraws.plan.1] at h
    cases h
  by_cases hnow : now.isTime
  · obtain ⟨r, hr⟩ := (Planning.checks_band operation band core).2 fun hband => hinvalid ⟨hnow, hband⟩
    exact hrefused (((Planning.checks_time operation now core).1 hnow).bind hr.bind_error)
  · obtain ⟨r, hr⟩ := (Planning.checks_time operation now core).2 hnow
    exact hrefused hr.bind_error

namespace Query

variable {config : Config} {core : Core} {now : Number} {on : Sensing} {threshold other : Number}

/-- The state of the radio on a band is told with a threshold that is not finite where it shows by itself. -/
theorem state_withThreshold {s : Radio.State} (hinf : ¬threshold.isFinite)
    (h : (Planning.plan (state config now (on.withThreshold other)) core).outcome = .ok s) :
    (core.record.ownState? now = none →
      (Planning.plan (state config now (on.withThreshold threshold)) core).outcome =
        .error ⟨"quantizeThreshold", .threshold threshold⟩) ∧
    (core.record.ownState? now ≠ none →
      (Planning.plan (state config now (on.withThreshold threshold)) core).outcome = .ok s) := by
  obtain ⟨hnow, hband⟩ := valid_of_ok h
  rw [outcome_state hnow hband] at h
  rw [@outcome_state config core now (on.withThreshold threshold) hnow hband]
  refine ⟨fun hown => Record.stateOn_error hown (Threshold.step_of_not_isFinite hinf _), fun hown => ?_⟩
  obtain ⟨s', hs'⟩ := Option.ne_none_iff_exists'.1 hown
  rw [Record.stateOn_of_own hs'] at h ⊢
  exact h

theorem timeToIdle_withThreshold {delay : Number} (hinf : ¬threshold.isFinite)
    (h : (Planning.plan (timeToIdle config now (on.withThreshold other)) core).outcome = .ok delay) :
    (Planning.plan (timeToIdle config now (on.withThreshold threshold)) core).outcome =
      .error ⟨"quantizeThreshold", .threshold threshold⟩ := by
  obtain ⟨hnow, hband⟩ := valid_of_ok h
  rw [outcome_timeToIdle hnow hband] at h
  rw [@outcome_timeToIdle config core now (on.withThreshold threshold) hnow hband]
  have hawake : core.record.powerState? = none := by
    cases hp : core.record.powerState? with
    | none => rfl
    | some s =>
      rw [Record.timeToIdle_of_powerSaving hp] at h
      cases h
  exact Record.timeToIdle_unusable hawake (Threshold.step_of_not_isFinite hinf _)

theorem timeSinceBusy_withThreshold {delay : Number} (hinf : ¬threshold.isFinite)
    (h : (Planning.plan (timeSinceBusy config now (on.withThreshold other)) core).outcome = .ok delay) :
    (Planning.plan (timeSinceBusy config now (on.withThreshold threshold)) core).outcome =
      .error ⟨"quantizeThreshold", .threshold threshold⟩ := by
  obtain ⟨hnow, hband⟩ := valid_of_ok h
  rw [@outcome_timeSinceBusy config core now (on.withThreshold threshold) hnow hband]
  exact Record.timeSinceBusy_unusable (Threshold.step_of_not_isFinite hinf _)

end Query

/-! ### All requests -/

/-- A question or a transition that succeeds with one threshold is refused with one that is not finite just if
it looks at it. If it does not, it succeeds with the same result. So it is answered wherever its steps are
carried out and no observer fails. -/
theorem Tracker.refuses_threshold_iff {t : Tracker} {q : TrackerRequest} {threshold other : Number}
    {p p' : Plan Value} {v : Value} (hp : t.planFor? (q.withThreshold other) = some p)
    (hv : p.outcome = .ok v)
    (hp' : t.planFor? (q.withThreshold threshold) = some p') (hinf : ¬threshold.isFinite) :
    ((q.LooksAtThreshold t → p'.outcome = .error ⟨"quantizeThreshold", .threshold threshold⟩) ∧
      (¬q.LooksAtThreshold t → p'.outcome = .ok v)) ∧
    ∀ depth i (s s' : Session), s.trackers[i]? = some t →
      (Act.carryOutSteps (Act.respond depth) i p'.steps).ran s = (.ok (), s') →
        (Act.performOnTracker (Act.respond depth) i (q.withThreshold threshold)).ran s =
          (p'.outcome.mapError .refused, s') := by
  refine ⟨?_, fun depth i s s' ht hcall => by rw [Act.ran_performOnTracker ht hp', Act.ran_carryOut hcall]⟩
  cases q with
  | ask question now on =>
    obtain rfl := Option.some.inj hp
    obtain rfl := Option.some.inj hp'
    cases question with
    | state | isState =>
      obtain ⟨a, ha, hf⟩ := Plan.map_eq_ok.1 hv
      obtain ⟨hrefused, hanswered⟩ := Query.state_withThreshold hinf ha
      exact ⟨fun hlooks => Plan.map_eq_error (hrefused hlooks),
        fun hlooks => Plan.map_eq_ok.2 ⟨a, hanswered hlooks, hf⟩⟩
    | timeToIdle =>
      obtain ⟨a, ha, -⟩ := Plan.map_eq_ok.1 hv
      exact ⟨fun _ => Plan.map_eq_error (Query.timeToIdle_withThreshold hinf ha),
        fun hlooks => absurd trivial hlooks⟩
    | timeSinceBusy =>
      obtain ⟨a, ha, -⟩ := Plan.map_eq_ok.1 hv
      exact ⟨fun _ => Plan.map_eq_error (Query.timeSinceBusy_withThreshold hinf ha),
        fun hlooks => absurd trivial hlooks⟩
  | transition x =>
    obtain rfl := Option.some.inj hp
    obtain rfl := Option.some.inj hp'
    obtain ⟨⟨⟩, ha, hf⟩ := Plan.map_eq_ok.1 hv
    obtain ⟨hfree, hperm⟩ := permitted_of_accepted ha
    obtain ⟨hrefused, haccepted⟩ := Transition.outcome_withThreshold hperm hinf
    rw [← plan_of_free hfree] at hrefused haccepted
    exact ⟨fun hlooks => Plan.map_eq_error (hrefused hlooks),
      fun hlooks => Plan.map_eq_ok.2 ⟨(), haccepted hlooks, hf⟩⟩
  | _ => cases hp

/-- A radio switches channels until fifty. With an undefined threshold it is switched to yet another channel
at once, but it is not at ten: by then there is something to report. -/
theorem Tracker.refuses_undefined_threshold_later :
    ∃ (t : Tracker) (p p' : Plan Value),
      let retune : Number → TrackerRequest := fun now => .transition (.retune now 5 ⟨⟨0, 63⟩, none⟩)
      (t.core.record.switching = ⟨0, 50⟩ ∧ t.core.cursor = 0) ∧
      (t.planFor? ((retune 0).withThreshold Number.undefined) = some p ∧ p.outcome.isOk) ∧
      t.planFor? ((retune 10).withThreshold Number.undefined) = some p' ∧
        p'.outcome = .error ⟨"quantizeThreshold", .threshold Number.undefined⟩ := by
  let retune : Number → TrackerRequest := fun now => .transition (.retune now 5 ⟨⟨0, 63⟩, none⟩)
  let t : Tracker :=
    { Tracker.first {} with core := { record := { switching := ⟨0, 50⟩ }, table := ⟨0.01, []⟩ } }
  have hinf : ¬Number.undefined.isFinite := by decide +kernel
  have haccepted (now : Number) (h : (t.plan (.retune now 5 ⟨⟨0, 63⟩, some (-82)⟩)).outcome.isOk = true) :
      ∃ v, ((t.plan (.retune now 5 ⟨⟨0, 63⟩, some (-82)⟩)).map fun _ => Value.nothing).outcome = .ok v := by
    refine ⟨.nothing, ?_⟩
    rw [Plan.map]
    cases hout : (t.plan (.retune now 5 ⟨⟨0, 63⟩, some (-82)⟩)).outcome with
    | ok => rfl
    | error r =>
      rw [hout] at h
      cases h
  obtain ⟨v, hv⟩ := haccepted 0 (by decide +kernel)
  obtain ⟨v', hv'⟩ := haccepted 10 (by decide +kernel)
  obtain ⟨⟨-, hanswered⟩, -⟩ :=
    @refuses_threshold_iff t (retune 0) Number.undefined (-82) _ _ v rfl hv rfl hinf
  obtain ⟨⟨hrefused, -⟩, -⟩ :=
    @refuses_threshold_iff t (retune 10) Number.undefined (-82) _ _ v' rfl hv' rfl hinf
  have hunseen : ¬(retune 0).LooksAtThreshold t := by
    have hown : t.core.record.ownState? 0 ≠ none := by decide +kernel
    have hnow : (0 : Number) ≤ t.core.cursor := by decide +kernel
    rintro (⟨-, hnone⟩ | ⟨-, hpassed, -⟩ | hrecords)
    · exact hown hnone
    · exact hpassed hnow
    · cases hrecords
  have hseen : (retune 10).LooksAtThreshold t :=
    Or.inr (Or.inl ⟨rfl, (by decide +kernel : ¬(10 : Number) ≤ t.core.cursor), rfl⟩)
  refine ⟨t, _, _, ⟨rfl, rfl⟩, ⟨rfl, ?_⟩, rfl, hrefused hseen⟩
  rw [hanswered hunseen]
  rfl

/-- A radio that is asleep shows so at an undefined threshold, and at an infinite one. One that has just begun
to switch channels is switched to another channel with an undefined threshold. -/
theorem Session.accepts_undefined_threshold :
    let on : Sensing := ⟨⟨0, 63⟩, none⟩
    let accepted : Session → TrackerRequest → Bool := fun s q =>
      (s.step (.tracker "radio" q)).1.reply.result.isOk
    let asleep := (firstUnder "radio").after [.tracker "radio" (.transition (.fallAsleep 0 on))]
    let switching := (firstUnder "radio").after [.tracker "radio" (.transition (.retune 0 50 on))]
    ¬Number.undefined.isFinite ∧ ¬(1 / 0 : Number).isFinite ∧
      accepted asleep (.ask .state 0 (on.withThreshold Number.undefined)) ∧
      accepted asleep (.ask .state 0 (on.withThreshold (1 / 0))) ∧
      accepted switching (.transition (.retune 0 5 (on.withThreshold Number.undefined))) := by
  decide +kernel

end RadioOccupancy
