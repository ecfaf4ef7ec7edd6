import RadioOccupancy.Proofs.Radio
import RadioOccupancy.Proofs.Transition
import RadioOccupancy.Tracker.Basic

/-!
What a refused transition leaves behind.

Everything a transition is checked for is checked before anything is reported, except whether its
threshold can be used: that is found out where the threshold is first looked at. A radio that is busy
by itself, asleep or off hides the threshold from the checks. So such a transition may be refused when
states have been reported, or the radio has been woken, already. `RefusedLate` is the exact condition
for that, and in all other cases a refusal leaves the tracker as it was and tells nobody anything.
-/

namespace RadioOccupancy

/-- The segments up to `now` for which no threshold is needed. -/
def Core.reportedFirst (core : Core) (now : Number) : List Segment :=
  if now ≤ core.cursor then []
  else match core.record.powerState? with
    | some state => [⟨core.cursor, now, state⟩]
    | none => core.ownSegments now

/-- A report up to `now` looks at its threshold: time has passed since the last one, and the radio is awake.
-/
def Core.ReportsBand (core : Core) (now : Number) : Prop :=
  ¬now ≤ core.cursor ∧ core.record.powerState? = none

namespace Transition

/-- The band on which a transition reports the states up to its time, if it does so for a band. -/
def reportsOn? : Transition → Option Sensing
  | .detectEnergy _ _ on isPrimary => if isPrimary then some on else none
  | x => x.sensing?

/-- Once the checks have passed, the transition needs its threshold: for its report, or to record energy. -/
def NeedsThreshold (core : Core) (x : Transition) : Prop :=
  (x.reportsOn?.isSome ∧ core.ReportsBand x.time) ∨ x.recordsOn?.isSome

/-- A transition does something before it looks at its threshold for the first time, or for the first
time after the checks: it wakes the radio or switches it on, or it has something to report. -/
def MarksFirst (core : Core) : Transition → Prop
  | .wakeUp .. | .powerOn .. => True
  | .detectEnergy _ _ _ false => False
  | x => core.reportedFirst x.time ≠ []

/-- A transition passes all checks, its threshold cannot be used, and it does something first. -/
def RefusedLate (config : Config) (core : Core) (x : Transition) : Prop :=
  x.Permitted config core ∧ ∃ on ∈ x.sensing?, ¬on.IsUsable config core ∧ x.MarksFirst core

end Transition

namespace Report

/-- Time passes in the segments of the radio's own activities. -/
theorem notices_ownSegments_eq_nil {now : Number} {pending : List Activity} {t : Number} :
    notices (ownSegments now pending t) = [] ↔ ownSegments now pending t = [] := by
  refine ⟨fun h => ?_, fun h => by rw [h]; rfl⟩
  rw [ownSegments] at h ⊢
  split
  · next hlt =>
    rw [if_pos hlt] at h
    split at h
    · next a others hfirst =>
      obtain ⟨-, -, -, -, hrun, -⟩ := firstRunning?_some hfirst
      rw [Interval.isRunning, Bool.and_eq_true, decide_eq_true_iff, decide_eq_true_iff] at hrun
      have := Number.not_minimum_le hrun.1 hlt
      simp [notices, Segment.isEmpty, this] at h
    · rfl
  · rfl

end Report

namespace Core

variable {core : Core} {now : Number}

/-- What is reported first takes time, so it is told. -/
theorem notices_reportedFirst_eq_nil :
    Report.notices (core.reportedFirst now) = [] ↔ core.reportedFirst now = [] := by
  rw [reportedFirst]
  split
  · simp [Report.notices]
  · next h =>
    cases core.record.powerState? with
    | some state => simp [Report.notices, Segment.isEmpty, h]
    | none => exact Report.notices_ownSegments_eq_nil

end Core

namespace Planning
open Transition

variable {config : Config} {core : Core}

theorem get_error {t : BusyTable} {band : Band} {threshold : Number} {r : Refusal}
    (h : Threshold.step threshold t.resolution = .error r) : t.get band threshold = .error r := by
  rw [BusyTable.get, h]
  rfl

/-- A report with a threshold that cannot be used goes as far as it needs none. -/
theorem draws_reportFirst (now : Number) {on : Sensing} {r : Refusal}
    (h : core.table.get on.band (on.thresholdIn config) = .error r) :
    ∃ core', (core.ReportsBand now → Draws (reportUntil now on.band (on.thresholdIn config)) core (.error r)
          core' (Report.notices (core.reportedFirst now))) ∧
      (¬core.ReportsBand now → Draws (reportUntil now on.band (on.thresholdIn config)) core (.ok ())
          core' (Report.notices (core.reportedFirst now))) ∧
      core'.table = core.table ∧ (core.reportedFirst now = [] → core' = core) := by
  by_cases hnow : now ≤ core.cursor
  · have hdraws : Draws (reportUntil now on.band (on.thresholdIn config)) core (.ok ())
        { core with cursor := core.cursorUntil now } (Report.notices (core.segmentsUntil none now)) :=
      draws_reportUntil fun hn => absurd hnow hn
    rw [Core.cursorUntil, Core.segmentsUntil, if_pos hnow, if_pos hnow] at hdraws
    rw [Core.reportedFirst, if_pos hnow]
    exact ⟨core, fun hb => absurd hnow hb.1, fun _ => hdraws, rfl, fun _ => rfl⟩
  · rw [Core.reportedFirst, if_neg hnow]
    cases hp : core.record.powerState? with
    | some state =>
      have hdraws : Draws (reportUntil now on.band (on.thresholdIn config)) core (.ok ())
          { core with cursor := core.cursorUntil now }
          (Report.notices (core.segmentsUntil none now)) :=
        draws_reportUntil fun _ hn => by rw [hp] at hn; cases hn
      rw [Core.segmentsUntil, if_neg hnow, hp] at hdraws
      refine ⟨_, fun hb => ?_, fun _ => hdraws, rfl, fun h => by cases h⟩
      rw [Core.ReportsBand, hp] at hb
      cases hb.2
    | none =>
      refine ⟨_, fun _ => draws_reportUntil_error hnow hp h, fun hb => absurd ⟨hnow, hp⟩ hb, rfl,
        fun hnil => ?_⟩
      have hnil : core.ownSegments now = [] := hnil
      rw [Core.ownReach, hnil]
      rfl

/-- Energy cannot be recorded at a threshold that cannot be used. -/
theorem draws_senseEnergy_error {now duration : Number} {on : Sensing} {r : Refusal}
    (h : Threshold.step (on.thresholdIn config) core.table.resolution = .error r) (isPrimary : Bool) :
    Draws (senseEnergy config now duration on.band isPrimary (on.thresholdIn config)) core (.error r)
      core [] := by
  have hd : core.table.detection on.band (on.thresholdIn config) now duration = .error r := by
    rw [detection_eq, h]
    rfl
  unfold senseEnergy
  refine draws_core_bind ?_
  rw [hd]
  exact (draws_check _ core).bind_error

/-- A radio that shows that it is asleep or off is. -/
theorem powerState?_of_shows {now : Number} {on : Sensing} {state : Radio.State}
    (hstate : state.isPowerSaving) (h : core.Shows config now on (· ∈ [state])) :
    core.record.powerState? = some state := by
  obtain ⟨s, hs, hmem⟩ := h
  obtain rfl := List.mem_singleton.1 hmem
  exact Record.powerState?_of_stateOn hstate hs

/-- What waking or switching on tells before it looks at its threshold, and how it fails there. -/
theorem draws_awake_error {c : Change} {operation : String} {now duration : Number}
    {details : Core → Details} {method : ListenerMethod} {on : Sensing} {r : Refusal}
    (h : Threshold.step (on.thresholdIn config) (c.apply core).table.resolution = .error r)
    (isPrimary : Bool) :
    ∃ core' ns, ns ≠ [] ∧ Draws (do
      change c
      let core ← Planning.core
      noteTransition config operation now (some duration) (details core)
      tellListeners method []
      senseEnergy config now duration on.band isPrimary (on.thresholdIn config))
      core (.error r) core' ns := by
  obtain ⟨ns, hnote, -⟩ : Enacts
      (noteTransition config operation now (some duration) (details (c.apply core)))
      (c.apply core) (c.apply core) := enacts_noteTransition ..
  refine ⟨_, ns ++ ([.listeners ⟨method, []⟩] ++ []), by simp, draws_change_bind (draws_core_bind
    (hnote.bind ((draws_announce _ _).bind (draws_senseEnergy_error h isPrimary))))⟩

/-- A radio that is woken or switched on to energy has been told so before the threshold is looked at. -/
theorem draws_up_error {x : Transition} {on : Sensing} {r : Refusal}
    (hdetects : ∀ now duration on isPrimary, x ≠ .detectEnergy now duration on isPrimary)
    (hon : on ∈ x.sensing?) (hrecords : x.recordsOn?.isSome)
    (h : Threshold.step (on.thresholdIn config) core.table.resolution = .error r) :
    ∃ core' ns, ns ≠ [] ∧ Draws (x.enact config) core (.error r) core' ns := by
  cases x with
  | detectEnergy now duration on isPrimary => exact absurd rfl (hdetects now duration on isPrimary)
  | wakeUp now duration on' isPrimary | powerOn now duration on' isPrimary =>
    obtain rfl := Option.mem_some_iff.1 hon
    have hpos : 0 < duration := by
      by_contra hpos
      simp [recordsOn?, hpos] at hrecords
    rw [enact, if_pos hpos]
    refine draws_awake_error ?_ isPrimary
    exact h
  | _ => cases hrecords

/-- What happens after the checks where the threshold cannot be used: if it is needed, the transition is
refused, with a mark just if it does something first; if not, it is accepted all the same. -/
theorem draws_unusable {x : Transition} {on : Sensing} {r : Refusal} (hp : x.Permitted config core)
    (hon : on ∈ x.sensing?)
    (h : Threshold.step (on.thresholdIn config) core.table.resolution = .error r) :
    (¬x.NeedsThreshold core →
      ∃ core' ns, Draws (do x.report config; x.enact config) core (.ok ()) core' ns) ∧
    (x.NeedsThreshold core →
      ∃ core' ns, Draws (do x.report config; x.enact config) core (.error r) core' ns ∧
        (core' = core ∧ ns = [] ↔ ¬x.MarksFirst core)) := by
  obtain ⟨core', hfails, hpasses, htable, hnil⟩ := draws_reportFirst x.time (get_error h)
  have hmark : core' = core ∧ Report.notices (core.reportedFirst x.time) = [] ↔
      ¬core.reportedFirst x.time ≠ [] := by
    rw [Core.notices_reportedFirst_eq_nil, not_not]
    exact ⟨And.right, fun hfirst => ⟨hnil hfirst, hfirst⟩⟩
  have hok : x.recordsOn? = none → ∃ core'' ns, Draws (x.enact config) core' (.ok ()) core'' ns := by
    intro hx
    obtain ⟨ns, henact, -⟩ : Enacts (x.enact config) core' _ := enacts_enact x (by simp [hx])
    exact ⟨_, ns, henact⟩
  have hawake {state : Radio.State} (hstate : core.record.powerState? = some state) :
      ¬core.ReportsBand x.time := by
    rintro ⟨-, hnone⟩
    rw [hstate] at hnone
    cases hnone
  rw [← htable] at h
  cases x with
  | transmit | receive | retune | fallAsleep | powerOff | flush =>
    obtain rfl := Option.mem_some_iff.1 hon
    refine ⟨fun hx => ?_, fun hx => ?_⟩
    · -- nothing looks at the threshold any more
      obtain ⟨core'', ns, henact⟩ := hok rfl
      exact ⟨core'', _, (hpasses fun hb => hx (Or.inl ⟨rfl, hb⟩)).bind henact⟩
    · obtain ⟨-, hb⟩ | hrecords := hx
      · exact ⟨core', _, (hfails hb).bind_error, hmark⟩
      · cases hrecords
  | detectEnergy now duration on' isPrimary =>
    obtain rfl := Option.mem_some_iff.1 hon
    refine ⟨fun hx => absurd (Or.inr rfl) hx, fun _ => ?_⟩
    cases isPrimary with
    | true =>
      by_cases hb : core.ReportsBand now
      · exact ⟨core', _, (hfails hb).bind_error, hmark⟩
      · refine ⟨core', _, (hpasses hb).bind (draws_senseEnergy_error h _).bind_error, ?_⟩
        rw [List.append_nil]
        exact hmark
    | false =>
      rw [htable] at h
      refine ⟨core, [], (draws_pure () core).bind ?_, by simp [MarksFirst]⟩
      exact (draws_senseEnergy_error h _).bind_error
  | wakeUp now duration on' isPrimary | powerOn now duration on' isPrimary =>
    have hasleep := hawake (powerState?_of_shows (by rfl) hp.state)
    refine ⟨fun hx => ?_, fun hx => ?_⟩
    · obtain ⟨core'', ns, henact⟩ := hok (Option.not_isSome_iff_eq_none.1 fun hsome => hx (Or.inr hsome))
      obtain rfl := Option.mem_some_iff.1 hon
      exact ⟨core'', _, (hpasses hasleep).bind henact⟩
    · obtain ⟨-, hb⟩ | hrecords := hx
      · exact absurd hb hasleep
      · obtain ⟨core'', ns, hns, henact⟩ := draws_up_error (by rintro _ _ _ _ ⟨⟩) hon hrecords h
        obtain rfl := Option.mem_some_iff.1 hon
        exact ⟨core'', _, (hpasses hasleep).bind henact, by simp [MarksFirst, hns]⟩
  | continueReception | completeReception | loseReception | abortReception => simp [sensing?] at hon

end Planning

namespace Transition
open Planning

variable {config : Config} {core : Core} {x : Transition}

/-- A threshold that cannot be used makes for a refusal. -/
theorem step_error_of_not_isUsable {on : Sensing} (h : ¬on.IsUsable config core) :
    ∃ r, Threshold.step (on.thresholdIn config) core.table.resolution = .error r := by
  cases hs : Threshold.step (on.thresholdIn config) core.table.resolution with
  | error r => exact ⟨r, rfl⟩
  | ok step => exact absurd ⟨step, hs⟩ h

/-- A refused transition leaves the tracker as it was and tells nobody anything, unless it is refused
late. -/
theorem refused_iff {r : Refusal} (h : (x.plan config core).outcome = .error r) :
    ((x.plan config core).finalCore core = core ∧ (x.plan config core).notices = []) ↔
      ¬x.RefusedLate config core := by
  by_cases hp : x.Permitted config core
  · by_cases hall : ∀ on ∈ x.sensing?, on.IsUsable config core
    · rw [(plan_of_permitted hp hall).1] at h
      cases h
    · push Not at hall
      obtain ⟨on, hon, hun⟩ := hall
      obtain ⟨r', hstep⟩ := step_error_of_not_isUsable hun
      obtain ⟨haccepted, hrefused⟩ := draws_unusable hp hon hstep
      by_cases hneeds : x.NeedsThreshold core
      · obtain ⟨core', ns, hrest, hmark⟩ := hrefused hneeds
        obtain ⟨-, hcore, hns⟩ := (((checks_body x).1 hp).bind (f := fun _ => _) hrest).plan
        rw [plan_eq, hcore, hns, List.nil_append, hmark, not_iff_not]
        refine ⟨fun hm => ⟨hp, on, hon, hun, hm⟩, fun ⟨_, _, _, _, hm⟩ => hm⟩
      · obtain ⟨core', ns, hrest⟩ := haccepted hneeds
        rw [plan_eq, (((checks_body x).1 hp).bind (f := fun _ => _) hrest).plan.1] at h
        cases h
  · obtain ⟨-, -, hcore, hns⟩ := plan_of_not_permitted hp
    exact ⟨fun _ hlate => hp hlate.1, fun _ => ⟨hcore, hns⟩⟩

end Transition

/-- A refused transition leaves the tracker as it was and tells nobody anything, unless the tracker
was free to take it and refuses it late. -/
theorem Tracker.refused_without_mark_iff (t : Tracker) (x : Transition) {r : Refusal}
    (h : (t.plan x).outcome = .error r) :
    ((t.plan x).finalCore t.core = t.core ∧ (t.plan x).notices = []) ↔
      ¬(t.unavailable? = none ∧ x.RefusedLate t.config t.core) := by
  cases hu : t.unavailable? with
  | some cause =>
    have hplan : t.plan x = Planning.plan (Planning.refuse x.name cause) t.core := by
      rw [plan, hu]
    have hdraws : Planning.Draws (Planning.refuse x.name cause : Planning Unit) t.core _ _ _ :=
      Planning.draws_refuse x.name cause t.core
    rw [hplan, hdraws.plan.2.1, hdraws.plan.2.2]
    simp
  | none =>
    have hplan : t.plan x = x.plan t.config t.core := by rw [plan, hu]
    rw [hplan] at h ⊢
    rw [Transition.refused_iff h]
    simp

/-- Energy is detected for thirty, and a flush is requested at twenty, at an undefined threshold. All checks
pass, but what is due cannot be reported on the band, so the flush is refused. No activity of the radio is
reported before that, and no mark is left. -/
theorem Tracker.refused_flush_without_mark :
    ∃ t x y t' r, (Tracker.create {} 0).toOption = some t ∧
      (t.plan x).outcome.isOk = true ∧ t' = { t with core := (t.plan x).finalCore t.core } ∧
      t'.core.cursor < y.time ∧ y.Permitted t'.config t'.core ∧
      (t'.plan y).outcome = .error r ∧ r.code = .invalidArgument ∧
      ¬(t'.unavailable? = none ∧ y.RefusedLate t'.config t'.core) ∧
      (t'.plan y).finalCore t'.core = t'.core ∧ (t'.plan y).notices = [] := by
  let t : Tracker := { config := {}, log := 0, core := { table := ⟨0.01, []⟩ } }
  let x : Transition := .detectEnergy 0 30 ⟨⟨0, 63⟩, none⟩ false
  let y : Transition := .flush 20 ⟨⟨0, 63⟩, some Number.undefined⟩
  let t' : Tracker := { t with core := (t.plan x).finalCore t.core }
  have hrefused : (t'.plan y).outcome.mapError Refusal.code = .error .invalidArgument := by decide +kernel
  have hpermitted : y.Permitted t'.config t'.core :=
    ⟨by decide +kernel, by decide +kernel, by decide +kernel, trivial, trivial⟩
  have hfirst : t'.core.reportedFirst 20 = [] := by decide +kernel
  have hearly : ¬(t'.unavailable? = none ∧ y.RefusedLate t'.config t'.core) := by
    rintro ⟨-, -, _, -, -, hmarks⟩
    exact hmarks hfirst
  cases hr : (t'.plan y).outcome with
  | ok =>
    rw [hr] at hrefused
    cases hrefused
  | error r =>
    rw [hr] at hrefused
    have hcode : r.code = .invalidArgument := Except.error.inj hrefused
    exact ⟨t, x, y, t', r, rfl, by decide +kernel, rfl, by decide +kernel, hpermitted, hr, hcode, hearly,
      (Tracker.refused_without_mark_iff t' y hr).2 hearly⟩

/-- A radio is tuned to another channel at an undefined threshold, ten units after it began to switch.
That is refused, but the time up to then has been reported. -/
theorem Tracker.late_refusal_leaves_mark :
    ∃ t x y t', (Tracker.create {} 0).toOption = some t ∧
      (t.plan x).outcome.isOk = true ∧ t' = { t with core := (t.plan x).finalCore t.core } ∧
      (t'.plan y).outcome.mapError Refusal.code = .error .invalidArgument ∧
      (t'.plan y).notices = [.trace (.stateChange 0 10 .switching)] ∧
      (t'.plan y).finalCore t'.core = { t'.core with cursor := 10 } := by
  refine ⟨{ config := {}, log := 0, core := { table := ⟨0.01, []⟩ } }, .retune 0 50 ⟨⟨0, 63⟩, none⟩,
    .retune 10 5 ⟨⟨0, 63⟩, some Number.undefined⟩, _, rfl, ?_, rfl, ?_, ?_, ?_⟩
  all_goals decide +kernel

end RadioOccupancy
