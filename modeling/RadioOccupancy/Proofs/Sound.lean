import RadioOccupancy.Proofs.Radio
import RadioOccupancy.Proofs.Transition

/-!
What a tracker remembers stays sound, and its reports leave no gap.

`Core.Sound` says that what is remembered are finite times, that what the radio does by itself has begun
by the cursor, and that busy periods do not end before they began. Every permitted transition keeps it,
if the end of what it begins is no less than its time (`Sound.after`). From it follows that the segments
of a transition follow each other from the cursor to where it is afterwards, which is the time of the
transition if that reports at all (`Sound.follow_segments`, `Sound.cursorAfter_value`).

`Core.Within P` says that `P` holds of all times that are remembered. As no time is ever made up, it
holds if `P` holds of the times of the transitions.
-/

namespace RadioOccupancy

/-- What a tracker remembers is sound. -/
structure Core.Sound (core : Core) : Prop where
  cursor : core.cursor.isTime
  lastChange : core.record.lastChange.isTime
  begun : ∀ a ∈ core.record.activities, a.interval.BegunBy core.cursor.value
  entries : ∀ e ∈ core.table.entries, e.Sound
  resolution : core.table.resolution.isFinite ∧ ¬core.table.resolution ≤ 0

/-- `P` holds of the times that a tracker remembers. -/
structure Core.Within (P : Number → Prop) (core : Core) : Prop where
  cursor : P core.cursor
  stops : ∀ a ∈ core.record.activities, P a.interval.stop
  ends : ∀ e ∈ core.table.entries, P e.busyStart ∧ P e.busyEnd

/-- The threshold of a request in steps of the resolution. -/
def Sensing.stepIn (s : Sensing) (config : Config) : Number :=
  Number.roundHalfUp (s.thresholdIn config / config.thresholdResolution)

/-- A threshold that can be told apart is finite, and the quotient by the resolution is rounded. -/
theorem Threshold.of_step {dbm resolution step : Number} (h : Threshold.step dbm resolution = .ok step) :
    dbm.isFinite ∧ step = Number.roundHalfUp (dbm / resolution) := by
  rw [Threshold.step] at h
  split at h
  · cases h
  · next hfin =>
    split at h
    · cases h
    · exact ⟨by simpa using hfin, (Except.ok.inj h).symm⟩

/-- Finite thresholds can be told apart at a resolution that can be used. -/
theorem Sensing.isUsable_of_resolution {config : Config} {core : Core}
    (hres : core.table.resolution.isFinite ∧ ¬core.table.resolution ≤ 0) {on : Sensing}
    (h : (on.thresholdIn config).isFinite) : on.IsUsable config core := by
  refine ⟨Number.roundHalfUp (on.thresholdIn config / core.table.resolution), ?_⟩
  rw [Threshold.step, h, hres.1]
  simp [hres.2]

/-- Finite thresholds can be told apart. -/
theorem Sensing.isUsable_of_isFinite {config : Config} {core : Core} (hcore : core.Sound) {on : Sensing}
    (h : (on.thresholdIn config).isFinite) : on.IsUsable config core :=
  isUsable_of_resolution hcore.resolution h

/-- They are told apart by their step. -/
theorem Sensing.step_eq {config : Config} {core : Core}
    (hcan : core.table.resolution.isFinite ∧ ¬core.table.resolution ≤ 0)
    (hres : core.table.resolution = config.thresholdResolution) {on : Sensing}
    (h : (on.thresholdIn config).isFinite) :
    Threshold.step (on.thresholdIn config) core.table.resolution = .ok (on.stepIn config) := by
  obtain ⟨step, hstep⟩ := isUsable_of_resolution hcan h
  rw [hstep, (Threshold.of_step hstep).2, hres, stepIn]

/-- The entry of a band is found by the step of its threshold. -/
theorem Core.entryOn_eq {config : Config} {core : Core}
    (hcan : core.table.resolution.isFinite ∧ ¬core.table.resolution ≤ 0)
    (hres : core.table.resolution = config.thresholdResolution) {on : Sensing}
    (h : (on.thresholdIn config).isFinite) :
    core.entryOn config on = core.table.find? on.band (on.stepIn config) := by
  rw [entryOn, Planning.get_eq (Sensing.step_eq hcan hres h)]

namespace Transition

/-- What the transition begins does not end before its time. -/
def EndsLater (x : Transition) : Prop :=
  ∀ d ∈ x.duration?, x.time.isTime → d.isTime →
    (x.time + d).isFinite ∧ x.time.value ≤ (x.time + d).value

/-- The sum of the time of a transition and its duration is exact. -/
def SumsExactly (x : Transition) : Prop :=
  ∀ d ∈ x.duration?, x.time.isTime → d.isTime →
    (x.time + d).isFinite ∧ (x.time + d).value = x.time.value + d.value

theorem SumsExactly.endsLater {x : Transition} (h : x.SumsExactly) : x.EndsLater := by
  intro d hd ht hdt
  obtain ⟨hfin, hsum⟩ := h d hd ht hdt
  exact ⟨hfin, by linarith [Number.value_nonneg hdt]⟩

/-- The threshold of a transition is finite. -/
def HasFiniteThreshold (config : Config) (x : Transition) : Prop :=
  ∀ on ∈ x.sensing?, (on.thresholdIn config).isFinite

/-- A transition that reports the states up to its time. -/
def Reports : Transition → Bool
  | .continueReception .. | .detectEnergy _ _ _ false => false
  | _ => true

end Transition

namespace Core.Sound

variable {P : Number → Prop} {config : Config} {core : Core} {x : Transition} {now : Number}

theorem finite_cursor (h : core.Sound) : core.cursor.isFinite :=
  Number.isFinite_of_isTime h.cursor

theorem finite_stops (h : core.Sound) : ∀ a ∈ core.record.activities, a.interval.stop.isFinite :=
  fun a ha => (h.begun a ha).finite_stop

/-- A transition that comes in order is not before the cursor, nor before the last change. -/
theorem le_of_order (h : core.Sound) {t : Number} (ht : t.isTime) (horder : ¬t < core.latest) :
    core.cursor.value ≤ t.value ∧ core.record.lastChange.value ≤ t.value := by
  have hl := Number.isFinite_of_isTime h.lastChange
  have htf := Number.isFinite_of_isTime ht
  rw [Core.latest] at horder
  rcases Number.maximum_eq hl h.finite_cursor with ⟨heq, hle⟩ | ⟨heq, hle⟩ <;> rw [heq] at horder
  · rw [Number.lt_iff htf hl, not_lt] at horder
    exact ⟨hle.trans horder, horder⟩
  · rw [Number.lt_iff htf h.finite_cursor, not_lt] at horder
    exact ⟨horder, hle.trans horder⟩

/-! ### Reports -/

/-- How the radio's own activities run from the cursor. -/
theorem runs (h : core.Sound) (hnow : now.isFinite) :
    Report.Runs now core.record.activities core.cursor (core.ownSegments now) :=
  Report.runs_ownSegments hnow _ _ h.finite_cursor h.begun

theorem cursorUntil_value (h : core.Sound) (hnow : now.isFinite)
    (hle : core.cursor.value ≤ now.value) : (core.cursorUntil now).value = now.value := by
  rw [Core.cursorUntil]
  split
  · next hc =>
    rw [Number.le_iff hnow h.finite_cursor] at hc
    exact le_antisymm hle hc
  · rfl

/-- While a reception is open, the radio's own activities reach now: it is one of them, and it has not
ended before. -/
theorem ownReach_value (h : core.Sound) (hnow : now.isFinite) (hle : core.cursor.value ≤ now.value)
    (hopen : core.record.hasOpenReception now) : (core.ownReach now).value = now.value := by
  rw [Record.hasOpenReception_iff _ hnow h.finite_stops] at hopen
  have hruns := h.runs hnow
  refine le_antisymm (hruns.reach_le hle) ?_
  rcases hruns.reach_or_ended with hreach | hended
  · exact hreach
  · exact hopen.2.2.2.2.trans (Record.forall_activities.1 hended).2.2

theorem ownReach_le (h : core.Sound) (hnow : now.isFinite) (hle : core.cursor.value ≤ now.value) :
    (core.ownReach now).value ≤ now.value :=
  (h.runs hnow).reach_le hle

theorem finite_ownReach (h : core.Sound) (hnow : now.isFinite) : (core.ownReach now).isFinite :=
  ((h.runs hnow).forall_ends (fun a => a.isFinite) h.finite_cursor hnow h.finite_stops).1

theorem follow_ownSegments (h : core.Sound) (hnow : now.isFinite) :
    Report.Follow core.cursor.value (core.ownSegments now) (core.ownReach now).value :=
  (h.runs hnow).follow h.finite_cursor hnow h.finite_stops

/-- The entry of a band is one of the table. -/
theorem mem_entryOn {on : Sensing} {e : BusyEntry} (he : e ∈ core.entryOn config on) :
    e ∈ core.table.entries := by
  rw [Core.entryOn, BusyTable.get] at he
  cases hs : Threshold.step (on.thresholdIn config) core.table.resolution with
  | error r =>
    rw [hs] at he
    cases he
  | ok step =>
    rw [hs] at he
    exact BusyTable.mem_of_find? he

/-- A report up to now leaves no gap. -/
theorem follow_segmentsUntil (h : core.Sound) (hnow : now.isFinite)
    (hle : core.cursor.value ≤ now.value) (on : Sensing) :
    Report.Follow core.cursor.value (core.segmentsUntil (core.entryOn config on) now) now.value := by
  rw [Core.segmentsUntil]
  split
  · next hc =>
    rw [Number.le_iff hnow h.finite_cursor] at hc
    exact le_antisymm hle hc
  · cases core.record.powerState? with
    | some state => exact ⟨h.finite_cursor, hnow, rfl, hle, rfl⟩
    | none =>
      have he : ∀ e ∈ core.entryOn config on, e.Sound := fun e he => h.entries e (mem_entryOn he)
      exact (h.follow_ownSegments hnow).append (Report.follow_bandSegments he
        (h.finite_ownReach hnow) hnow (h.ownReach_le hnow hle))

/-- A permitted transition that reports moves the cursor to its time; others leave it. -/
theorem cursorAfter_value (h : core.Sound) (hx : x.Permitted config core) :
    (x.cursorAfter core).value = if x.Reports then x.time.value else core.cursor.value := by
  have hnow := Number.isFinite_of_isTime hx.time
  have hle := (h.le_of_order hx.time hx.order).1
  cases x with
  | detectEnergy now duration on isPrimary =>
    cases isPrimary with
    | true => exact h.cursorUntil_value hnow hle
    | false => rfl
  | continueReception => rfl
  | completeReception | loseReception | abortReception => exact h.ownReach_value hnow hle hx.state
  | _ => exact h.cursorUntil_value hnow hle

/-- The segments of a permitted transition lead from the cursor to where it is afterwards. -/
theorem follow_segments (h : core.Sound) (hx : x.Permitted config core) :
    Report.Follow core.cursor.value (x.segments config core) (x.cursorAfter core).value := by
  have hnow := Number.isFinite_of_isTime hx.time
  have hle := (h.le_of_order hx.time hx.order).1
  cases x with
  | detectEnergy now duration on isPrimary =>
    cases isPrimary with
    | true =>
      rw [h.cursorAfter_value hx]
      exact h.follow_segmentsUntil hnow hle _
    | false => rfl
  | continueReception => rfl
  | completeReception | loseReception | abortReception => exact h.follow_ownSegments hnow
  | _ =>
    rw [h.cursorAfter_value hx]
    exact h.follow_segmentsUntil hnow hle _

/-! ### What transitions keep -/

/-- The cursor after a permitted transition is a time. -/
theorem isTime_cursorAfter (h : core.Sound) (hx : x.Permitted config core) :
    (x.cursorAfter core).isTime := by
  have hnow := Number.isFinite_of_isTime hx.time
  have hfin : (x.cursorAfter core).isFinite := by
    have huntil : (core.cursorUntil x.time).isFinite := by
      rw [Core.cursorUntil]
      split
      · exact h.finite_cursor
      · exact hnow
    cases x with
    | detectEnergy now duration on isPrimary =>
      cases isPrimary with
      | true => exact huntil
      | false => exact h.finite_cursor
    | continueReception => exact h.finite_cursor
    | completeReception | loseReception | abortReception => exact h.finite_ownReach hnow
    | _ => exact huntil
  refine Number.isTime_iff.2 ⟨hfin, ?_⟩
  rw [h.cursorAfter_value hx]
  split
  · exact Number.value_nonneg hx.time
  · exact Number.value_nonneg h.cursor

/-- The cursor only moves forward. -/
theorem cursor_le_cursorAfter (h : core.Sound) (hx : x.Permitted config core) :
    core.cursor.value ≤ (x.cursorAfter core).value :=
  (h.follow_segments hx).le

theorem withCursor (h : core.Sound) {t : Number} (ht : t.isTime)
    (hle : core.cursor.value ≤ t.value) : { core with cursor := t }.Sound :=
  ⟨ht, h.lastChange, fun a ha => (h.begun a ha).mono hle, h.entries, h.resolution⟩

theorem withRecord (h : core.Sound) {r : Record} {n : Nat} (hlast : r.lastChange.isTime)
    (hbegun : ∀ a ∈ r.activities, a.interval.BegunBy core.cursor.value) :
    { core with record := r, mpdus := n }.Sound :=
  ⟨h.cursor, hlast, hbegun, h.entries, h.resolution⟩

/-- A record with other flags and another time of the latest transition. -/
theorem withFlags (h : core.Sound) {r : Record} {n : Nat} (hlast : r.lastChange.isTime)
    (hsame : r.activities = core.record.activities) :
    { core with record := r, mpdus := n }.Sound :=
  h.withRecord hlast (by rw [hsame]; exact h.begun)

/-- Energy is recorded in a sound entry. -/
theorem sensed (h : core.Sound) {duration : Number} {on : Sensing} (hnow : now.isFinite)
    (hsum : (now + duration).isFinite) (hle : now.value ≤ (now + duration).value) :
    (core.sensed config now duration on).Sound := by
  unfold Core.sensed
  split
  · next step hstep =>
    refine ⟨h.cursor, h.lastChange, h.begun, fun e he => ?_, ?_⟩
    · rcases BusyTable.mem_detected he with rfl | he
      · exact BusyTable.sound_beside _ _ (fun e he => h.entries e (BusyTable.mem_of_find? he)) hnow hsum
          hle
      · exact h.entries e he
    · simpa using h.resolution
  · exact h

/-- An interval that begins at the cursor has begun by then. -/
theorem begunBy_lasting {c duration : Number} (hnow : now.isFinite) (hsum : (now + duration).isFinite)
    (hle : now.value ≤ c.value) : (Interval.lasting now duration).BegunBy c.value :=
  ⟨hnow, hsum, hle⟩

/-- What a permitted transition does once it has reported keeps soundness. -/
theorem enacted (h : core.Sound) (ht : x.time.isTime) (hargs : x.ArgumentsValid) (hends : x.EndsLater)
    (hle : x.Reports → x.time.value ≤ core.cursor.value) : (x.enacted config core).Sound := by
  have hnow := Number.isFinite_of_isTime ht
  obtain ⟨hs, htx, hrx⟩ := Record.forall_activities.1 h.begun
  have hdur := Transition.isTime_of_duration? hargs
  cases x with
  | transmit now duration =>
    have hsum := hends duration rfl ht (hdur duration rfl)
    exact h.withRecord ht (Record.forall_activities.2 ⟨hs, begunBy_lasting hnow hsum.1 (hle rfl), hrx⟩)
  | receive now duration =>
    have hsum := hends duration rfl ht (hdur duration rfl)
    exact h.withRecord ht (Record.forall_activities.2 ⟨hs, htx, begunBy_lasting hnow hsum.1 (hle rfl)⟩)
  | retune now duration =>
    have hsum := hends duration rfl ht (hdur duration rfl)
    exact h.withRecord ht (Record.forall_activities.2 ⟨begunBy_lasting hnow hsum.1 (hle rfl), htx, hrx⟩)
  | completeReception now | loseReception now | abortReception now =>
    exact h.withRecord ht (Record.forall_activities.2 ⟨hs, htx, hrx.finite_start, hnow, hrx.start_le⟩)
  | detectEnergy now duration on =>
    have hsum := hends duration rfl ht (hdur duration rfl)
    exact (h.sensed hnow hsum.1 hsum.2).withFlags ht rfl
  | wakeUp now duration on | powerOn now duration on =>
    have hsum := hends duration rfl ht (hdur duration rfl)
    rw [Transition.enacted]
    split
    · refine sensed ?_ hnow hsum.1 hsum.2
      exact h.withFlags ht rfl
    · exact h.withFlags ht rfl
  | fallAsleep | powerOff => exact h.withFlags ht rfl
  | continueReception => exact h.withFlags h.lastChange rfl
  | flush => exact h

/-- A permitted transition keeps soundness. -/
theorem after (h : core.Sound) (hx : x.Permitted config core) (hends : x.EndsLater) :
    (x.after config core).Sound := by
  refine (h.withCursor (h.isTime_cursorAfter hx) (h.cursor_le_cursorAfter hx)).enacted hx.time
    hx.arguments hends fun hr => ?_
  rw [h.cursorAfter_value hx, if_pos hr]

end Core.Sound

namespace Transition

variable {config : Config} {core : Core} {x : Transition}

/-- A transition that is recorded as the latest one. -/
def Stamps : Transition → Bool
  | .continueReception .. | .flush .. => false
  | _ => true

theorem lastChange_after (config : Config) (core : Core) (x : Transition) :
    (x.after config core).record.lastChange =
      if x.Stamps then x.time else core.record.lastChange := by
  cases x with
  | wakeUp | powerOn =>
    rw [after, enacted]
    split
    · rw [Core.record_sensed]
      rfl
    · rfl
  | _ => rfl

theorem cursor_after (config : Config) (core : Core) (x : Transition) :
    (x.after config core).cursor = x.cursorAfter core := by
  cases x with
  | wakeUp | powerOn =>
    rw [after, enacted]
    split
    · rw [Core.cursor_sensed]
      rfl
    · rfl
  | detectEnergy =>
    change (Core.sensed ..).cursor = _
    rw [Core.cursor_sensed]
  | _ => rfl

theorem resolution_after (config : Config) (core : Core) (x : Transition) :
    (x.after config core).table.resolution = core.table.resolution := by
  cases x with
  | wakeUp | powerOn =>
    rw [after, enacted]
    split
    · rw [Core.resolution_sensed]
      rfl
    · rfl
  | detectEnergy =>
    change (Core.sensed ..).table.resolution = _
    rw [Core.resolution_sensed]
  | _ => rfl

end Transition

namespace Core.Sound

variable {config : Config} {core : Core} {x : Transition}

/-- The larger of the two times that a transition must not be before. -/
theorem latest_value (h : core.Sound) :
    core.latest.isFinite ∧ core.latest.value = max core.record.lastChange.value core.cursor.value := by
  have hl := Number.isFinite_of_isTime h.lastChange
  rw [Core.latest]
  rcases Number.maximum_eq hl h.finite_cursor with ⟨heq, hle⟩ | ⟨heq, hle⟩ <;> rw [heq]
  · exact ⟨hl, (max_eq_left hle).symm⟩
  · exact ⟨h.finite_cursor, (max_eq_right hle).symm⟩

/-- A transition must not be before the latest one, unless that continued a reception. -/
theorem latest_after (h : core.Sound) (hx : x.Permitted config core) (hends : x.EndsLater) :
    (x.after config core).latest.value =
      if x.Reports || x.Stamps then x.time.value else core.latest.value := by
  obtain ⟨hcur, hlast⟩ := h.le_of_order hx.time hx.order
  rw [(h.after hx hends).latest_value.2, h.latest_value.2, Transition.lastChange_after,
    Transition.cursor_after, h.cursorAfter_value hx]
  cases hr : x.Reports <;> cases hst : x.Stamps <;> simp [hcur, hlast]

end Core.Sound

/-- `P` holds of the times of a transition with valid arguments. -/
structure Transition.Names (P : Number → Prop) (x : Transition) : Prop where
  time : x.time.isTime → P x.time
  stop : ∀ d ∈ x.duration?, x.time.isTime → d.isTime → P (x.time + d)

namespace Core.Within

variable {P : Number → Prop} {config : Config} {core : Core} {x : Transition} {now : Number}

theorem ends_entryOn (h : core.Within P) {on : Sensing} :
    ∀ e ∈ core.entryOn config on, P e.busyStart ∧ P e.busyEnd :=
  fun e he => h.ends e (Core.Sound.mem_entryOn he)

theorem ownSegments (hs : core.Sound) (h : core.Within P) (hnow : now.isFinite) (hP : P now) :
    P (core.ownReach now) ∧ ∀ s ∈ core.ownSegments now, P s.start ∧ P s.stop :=
  (hs.runs hnow).forall_ends P h.cursor hP h.stops

theorem segmentsUntil (hs : core.Sound) (h : core.Within P) (hnow : now.isFinite) (hP : P now)
    (on : Sensing) : ∀ s ∈ core.segmentsUntil (core.entryOn config on) now, P s.start ∧ P s.stop := by
  rw [Core.segmentsUntil]
  split
  · simp
  · cases core.record.powerState? with
    | some state => simpa using ⟨h.cursor, hP⟩
    | none =>
      obtain ⟨hreach, hown⟩ := h.ownSegments hs hnow hP
      intro s hmem
      rcases List.mem_append.1 hmem with hmem | hmem
      · exact hown s hmem
      · exact Report.forall_ends_bandSegments P
          (fun e he => hs.entries e (Core.Sound.mem_entryOn he)) (hs.finite_ownReach hnow) hnow hreach
          hP h.ends_entryOn s hmem

/-- `P` holds of the ends of what a transition reports. -/
theorem segments (hs : core.Sound) (h : core.Within P) (ht : x.time.isTime) (hP : P x.time) :
    ∀ s ∈ x.segments config core, P s.start ∧ P s.stop := by
  have hnow := Number.isFinite_of_isTime ht
  cases x with
  | detectEnergy now duration on isPrimary =>
    cases isPrimary with
    | true => exact h.segmentsUntil hs hnow hP on
    | false => simp [Transition.segments]
  | continueReception => simp [Transition.segments]
  | completeReception | loseReception | abortReception => exact (h.ownSegments hs hnow hP).2
  | _ => exact h.segmentsUntil hs hnow hP _

theorem cursorAfter (hs : core.Sound) (h : core.Within P) (ht : x.time.isTime) (hP : P x.time) :
    P (x.cursorAfter core) := by
  have hnow := Number.isFinite_of_isTime ht
  have huntil : P (core.cursorUntil x.time) := by
    rw [Core.cursorUntil]
    split
    · exact h.cursor
    · exact hP
  cases x with
  | detectEnergy now duration on isPrimary =>
    cases isPrimary with
    | true => exact huntil
    | false => exact h.cursor
  | continueReception => exact h.cursor
  | completeReception | loseReception | abortReception => exact (h.ownSegments hs hnow hP).1
  | _ => exact huntil

theorem sensed (h : core.Within P) {duration : Number} {on : Sensing} (hP : P now)
    (hsum : P (now + duration)) : (core.sensed config now duration on).Within P := by
  unfold Core.sensed
  split
  · next step hstep =>
    refine ⟨h.cursor, h.stops, fun e he => ?_⟩
    rcases BusyTable.mem_detected he with rfl | he
    · have hold : ∀ e ∈ core.table.find? on.band step, P e.busyStart ∧ P e.busyEnd :=
        fun e he => h.ends e (BusyTable.mem_of_find? he)
      constructor
      · rcases BusyTable.busyStart_beside (core.table.find? on.band step) on.band step now duration with
          heq | ⟨e, he, heq⟩ <;> rw [heq]
        · exact hP
        · exact (hold e he).1
      · rcases BusyTable.entry_beside (core.table.find? on.band step) on.band step now duration with
          ⟨heq, -⟩ | ⟨⟨-, -, heq⟩, -⟩
        · exact (hold _ heq).2
        · rw [heq]
          exact hsum
    · exact h.ends e he
  · exact h

/-- A permitted transition makes up no times. -/
theorem after (hs : core.Sound) (h : core.Within P) (hx : x.Permitted config core) (hP : x.Names P) :
    (x.after config core).Within P := by
  have hdur := Transition.isTime_of_duration? hx.arguments
  have hPt := hP.time hx.time
  have hc : Core.Within P { core with cursor := x.cursorAfter core } :=
    ⟨h.cursorAfter hs hx.time hPt, h.stops, h.ends⟩
  obtain ⟨hsw, htx, hrx⟩ := Record.forall_activities.1 h.stops
  rw [Transition.after]
  cases x with
  | transmit now duration =>
    have hsum := hP.stop duration rfl hx.time (hdur duration rfl)
    exact ⟨hc.cursor, Record.forall_activities.2 ⟨hsw, hsum, hrx⟩, hc.ends⟩
  | receive now duration =>
    have hsum := hP.stop duration rfl hx.time (hdur duration rfl)
    exact ⟨hc.cursor, Record.forall_activities.2 ⟨hsw, htx, hsum⟩, hc.ends⟩
  | retune now duration =>
    have hsum := hP.stop duration rfl hx.time (hdur duration rfl)
    exact ⟨hc.cursor, Record.forall_activities.2 ⟨hsum, htx, hrx⟩, hc.ends⟩
  | completeReception | loseReception | abortReception =>
    exact ⟨hc.cursor, Record.forall_activities.2 ⟨hsw, htx, hPt⟩, hc.ends⟩
  | detectEnergy now duration on =>
    have hsensed : Core.Within P (Core.sensed config now duration on _) :=
      hc.sensed hPt (hP.stop duration rfl hx.time (hdur duration rfl))
    exact ⟨hsensed.cursor, hsensed.stops, hsensed.ends⟩
  | wakeUp now duration on | powerOn now duration on =>
    have hsum := hP.stop duration rfl hx.time (hdur duration rfl)
    rw [Transition.enacted]
    split
    · refine sensed ?_ hPt hsum
      exact ⟨hc.cursor, hc.stops, hc.ends⟩
    · exact ⟨hc.cursor, hc.stops, hc.ends⟩
  | continueReception | fallAsleep | powerOff | flush => exact ⟨hc.cursor, hc.stops, hc.ends⟩

end Core.Within

end RadioOccupancy
