import Mathlib.Data.List.MinMax
import RadioOccupancy.Proofs.Sound

/-!
The reference radio, and why what a tracker remembers stands for it.

The reference radio has three flags, the ends of its own three activities, the energy that was ever
detected, and a clock. It knows nothing of intervals that begin, of cursors and of reports, and its
times are rational numbers. `Matches` ties it to what a tracker remembers, `Matches.stateOn` and
`Matches.mayBegin_iff` say that it gives the same answers, and `Matches.after` that it goes on doing so
after each transition.
-/

namespace RadioOccupancy

/-- Energy that was detected on a band at a threshold step, up to an instant. -/
structure Energy where
  band : Band
  step : Number
  stop : ℚ

/-- The energy was detected on this band and at this step. -/
def Energy.isOn (e : Energy) (band : Band) (step : Number) : Bool :=
  e.band.sameKey band && e.step.same step

/-- The reference radio. -/
structure Reference where
  off : Bool := false
  sleeping : Bool := false
  receiving : Bool := false
  txEnd : ℚ := 0
  rxEnd : ℚ := 0
  switchingEnd : ℚ := 0
  energy : List Energy := []
  /-- the time of the latest transition that moved the clock -/
  clock : ℚ := 0

namespace Reference

/-- The latest end of the energy that was detected on a band at a step, if any was. -/
def busyEnd (radio : Reference) (band : Band) (step : Number) : WithBot ℚ :=
  ((radio.energy.filter fun e => e.isOn band step).map Energy.stop).maximum

/-- The state of the radio at an instant, on a band at a step. -/
def stateAt (radio : Reference) (t : ℚ) (band : Band) (step : Number) : Radio.State :=
  if radio.off then .off
  else if radio.sleeping then .sleep
  else if t < radio.switchingEnd then .switching
  else if t < radio.txEnd then .tx
  else if t < radio.rxEnd then .rx
  else if t < radio.busyEnd band step then .ccaBusy
  else .idle

/-- A reception can be ended. -/
def receptionOpen (radio : Reference) (t : ℚ) : Prop :=
  radio.receiving ∧ radio.off = false ∧ radio.sleeping = false ∧ radio.switchingEnd ≤ t ∧
    radio.txEnd ≤ t ∧ t ≤ radio.rxEnd

/-- The states from which a transition is allowed. -/
def Allows (config : Config) (radio : Reference) : Transition → Prop
  | .transmit now _ _ _ _ on =>
    radio.stateAt now.value on.band (on.stepIn config) ∉ [.off, .sleep, .rx, .switching]
  | .receive now _ on => radio.stateAt now.value on.band (on.stepIn config) ∈ [.idle, .ccaBusy]
  | .retune now _ on => radio.stateAt now.value on.band (on.stepIn config) ∉ [.off, .sleep]
  | .detectEnergy now _ on _ | .fallAsleep now on =>
    radio.stateAt now.value on.band (on.stepIn config) ∉ [.off]
  | .wakeUp now _ on _ => radio.stateAt now.value on.band (on.stepIn config) ∈ [.sleep]
  | .powerOn now _ on _ => radio.stateAt now.value on.band (on.stepIn config) ∈ [.off]
  | .continueReception now .. => radio.receptionOpen now.value ∧ now.value < radio.rxEnd
  | .completeReception now .. | .loseReception now .. | .abortReception now _ =>
    radio.receptionOpen now.value
  | .powerOff .. | .flush .. => True

instance (radio : Reference) (t : ℚ) : Decidable (radio.receptionOpen t) :=
  inferInstanceAs (Decidable (_ ∧ _ ∧ _ ∧ _ ∧ _ ∧ _))

instance (config : Config) (radio : Reference) : DecidablePred (radio.Allows config)
  | .transmit .. | .receive .. | .retune .. | .detectEnergy .. | .fallAsleep .. | .wakeUp ..
  | .powerOn .. => by unfold Allows; infer_instance
  | .continueReception .. => inferInstanceAs (Decidable (_ ∧ _))
  | .completeReception .. | .loseReception .. | .abortReception .. =>
    inferInstanceAs (Decidable (receptionOpen ..))
  | .powerOff .. | .flush .. => inferInstanceAs (Decidable True)

/-- What the radio accepts: valid arguments, in order, from an allowed state. -/
def Accepts (config : Config) (radio : Reference) (x : Transition) : Prop :=
  x.time.isTime ∧ (∀ on ∈ x.sensing?, on.band.isValid) ∧ x.ArgumentsValid ∧
    radio.clock ≤ x.time.value ∧ radio.Allows config x

instance (config : Config) (radio : Reference) (x : Transition) :
    Decidable (radio.Accepts config x) :=
  inferInstanceAs (Decidable (_ ∧ _ ∧ _ ∧ _ ∧ _))

/-- The radio after energy on a band. -/
def sensed (config : Config) (now duration : Number) (on : Sensing) (radio : Reference) : Reference :=
  { radio with
    energy := ⟨on.band, on.stepIn config, now.value + duration.value⟩ :: radio.energy }

/-- What a transition does to the radio. -/
def enacted (config : Config) : Transition → Reference → Reference
  | .transmit now duration .., radio =>
    { radio with txEnd := now.value + duration.value, receiving := false }
  | .receive now duration _, radio =>
    { radio with rxEnd := now.value + duration.value, receiving := true }
  | .retune now duration _, radio => { radio with switchingEnd := now.value + duration.value }
  | .completeReception now .., radio | .loseReception now .., radio
  | .abortReception now _, radio => { radio with rxEnd := now.value, receiving := false }
  | .detectEnergy now duration on _, radio => radio.sensed config now duration on
  | .fallAsleep .., radio => { radio with sleeping := true }
  | .wakeUp now duration on _, radio =>
    let awake := { radio with sleeping := false }
    if 0 < duration.value then awake.sensed config now duration on else awake
  | .powerOff .., radio => { radio with sleeping := false, off := true }
  | .powerOn now duration on _, radio =>
    let on' := { radio with off := false }
    if 0 < duration.value then on'.sensed config now duration on else on'
  | .continueReception .., radio | .flush .., radio => radio

/-- The radio after a transition. The clock stands still while a reception goes on. -/
def after (config : Config) (radio : Reference) (x : Transition) : Reference :=
  { enacted config x radio with
    clock := match x with
      | .continueReception .. => radio.clock
      | _ => x.time.value }

end Reference

/-- When the energy ends that was recorded on a band at a step. -/
def BusyTable.busyEndOn (t : BusyTable) (band : Band) (step : Number) : WithBot ℚ :=
  match t.find? band step with
  | some e => (e.busyEnd.value : ℚ)
  | none => ⊥

/-- A detection moves the end of its key forward, and no other. -/
theorem BusyTable.busyEndOn_detected {t : BusyTable} (h : ∀ e ∈ t.entries, e.Sound) (band b : Band)
    (step s : Number) {now duration : Number} (hsum : (now + duration).isFinite) :
    (t.detected band step now duration).busyEndOn b s =
      if band.sameKey b && step.same s then
        max ((now + duration).value : WithBot ℚ) (t.busyEndOn b s)
      else t.busyEndOn b s := by
  rw [busyEndOn, find?_detected]
  by_cases hkey : (band.sameKey b && step.same s) = true
  · rw [if_pos hkey, if_pos hkey, busyEndOn, ← find?_congr t hkey]
    have hfin : ∀ e ∈ t.find? band step, e.busyEnd.isFinite :=
      fun e he => (h e (mem_of_find? he)).finite_end
    dsimp only
    rcases busyEnd_beside band step hfin hsum with ⟨heq, hle⟩ | ⟨e, he, heq, hle⟩
    · rw [heq]
      cases hf : t.find? band step with
      | none => simp
      | some e => simpa using hle e hf
    · rw [heq, Option.mem_def.1 he]
      simpa using hle
  · rw [if_neg hkey, if_neg hkey]
    rfl

namespace Reference

/-- The reference radio stands for what a tracker remembers. -/
structure Matches (config : Config) (radio : Reference) (core : Core) : Prop where
  off : core.record.poweredOff = radio.off
  sleeping : core.record.sleeping = radio.sleeping
  receiving : core.record.receiving = radio.receiving
  txEnd : core.record.tx.stop.value = radio.txEnd
  rxEnd : core.record.rx.stop.value = radio.rxEnd
  switchingEnd : core.record.switching.stop.value = radio.switchingEnd
  energy : ∀ band step, core.table.busyEndOn band step = radio.busyEnd band step
  resolution : core.table.resolution = config.thresholdResolution

/-! ### The same answers -/

section Answers

variable {config : Config} {core : Core} {radio : Reference}

/-- The record and the busy table show the state of the reference radio. -/
theorem Matches.stateOn (hs : core.Sound) (h : radio.Matches config core) {on : Sensing}
    (hon : (on.thresholdIn config).isFinite) {now : Number} (hnow : now.isFinite) :
    core.record.stateOn core.table on.band (on.thresholdIn config) now =
      .ok (radio.stateAt now.value on.band (on.stepIn config)) := by
  obtain ⟨hsw, htx, hrx⟩ := Record.forall_activities.1 hs.finite_stops
  have hbusy : ((core.table.find? on.band (on.stepIn config)).any fun e => now < e.busyEnd) = true ↔
      (now.value : WithBot ℚ) < radio.busyEnd on.band (on.stepIn config) := by
    rw [← h.energy, BusyTable.busyEndOn]
    cases hf : core.table.find? on.band (on.stepIn config) with
    | none => simp
    | some e =>
      have he := (hs.entries e (BusyTable.mem_of_find? hf)).finite_end
      simp [Number.lt_iff hnow he]
  have hown : core.record.ownState? now =
      if radio.off then some .off
      else if radio.sleeping then some .sleep
      else if now.value < radio.switchingEnd then some .switching
      else if now.value < radio.txEnd then some .tx
      else if now.value < radio.rxEnd then some .rx
      else none := by
    simp only [Record.ownState?, Record.powerState?, Record.activity?_eq, Number.lt_iff hnow hsw,
      Number.lt_iff hnow htx, Number.lt_iff hnow hrx, h.off, h.sleeping, h.switchingEnd, h.txEnd,
      h.rxEnd]
    cases radio.off <;> cases radio.sleeping <;> rfl
  cases ho : core.record.ownState? now with
  | some s =>
    rw [Record.stateOn_of_own ho, stateAt]
    rw [hown] at ho
    split_ifs at ho ⊢ <;> simp_all
  | none =>
    rw [Record.stateOn_of_idle ho (Sensing.step_eq hs.resolution h.resolution hon), stateAt]
    rw [hown] at ho
    split_ifs at ho ⊢ <;> simp_all

theorem Matches.shows_iff (hs : core.Sound) (h : radio.Matches config core) {on : Sensing}
    (hon : (on.thresholdIn config).isFinite) {now : Number} (hnow : now.isFinite)
    (allowed : Radio.State → Prop) :
    core.Shows config now on allowed ↔
      allowed (radio.stateAt now.value on.band (on.stepIn config)) := by
  rw [Core.Shows, h.stateOn hs hon hnow]
  refine ⟨fun ⟨s, heq, hall⟩ => ?_, fun hall => ⟨_, rfl, hall⟩⟩
  obtain rfl := Except.ok.inj heq
  exact hall

theorem Matches.hasOpenReception_iff (hs : core.Sound) (h : radio.Matches config core) {now : Number}
    (hnow : now.isFinite) : core.record.hasOpenReception now ↔ radio.receptionOpen now.value := by
  rw [Record.hasOpenReception_iff _ hnow hs.finite_stops, Record.powerState?_eq_none_iff, h.off,
    h.sleeping, h.receiving, h.switchingEnd, h.txEnd, h.rxEnd, receptionOpen, and_assoc]

/-- The same transitions are possible. -/
theorem Matches.mayBegin_iff (hs : core.Sound) (h : radio.Matches config core) {x : Transition}
    (ht : x.time.isTime) (hx : x.HasFiniteThreshold config) :
    x.MayBegin config core ↔ radio.Allows config x := by
  have hnow := Number.isFinite_of_isTime ht
  cases x with
  | transmit | receive | retune | detectEnergy | fallAsleep | wakeUp | powerOn =>
    exact h.shows_iff hs (hx _ rfl) hnow _
  | continueReception now =>
    have hnow : now.isFinite := hnow
    have hrx : core.record.rx.stop.isFinite := (Record.forall_activities.1 hs.finite_stops).2.2
    refine and_congr (h.hasOpenReception_iff hs hnow) ?_
    rw [Number.le_iff hrx hnow, not_le, h.rxEnd]
  | completeReception | loseReception | abortReception => exact h.hasOpenReception_iff hs hnow
  | powerOff | flush => exact Iff.rfl

/-- What is permitted is what the reference radio accepts. -/
theorem Matches.permitted_iff (hs : core.Sound) (h : radio.Matches config core)
    (hclock : core.latest.value = radio.clock) {x : Transition} (hx : x.HasFiniteThreshold config) :
    x.Permitted config core ↔ radio.Accepts config x := by
  have horder (ht : x.time.isTime) : ¬x.time < core.latest ↔ radio.clock ≤ x.time.value := by
    rw [Number.lt_iff (Number.isFinite_of_isTime ht) hs.latest_value.1, not_lt, hclock]
  constructor
  · rintro ⟨ht, ho, hb, ha, hst⟩
    exact ⟨ht, hb, ha, (horder ht).1 ho, (h.mayBegin_iff hs ht hx).1 hst⟩
  · rintro ⟨ht, hb, ha, ho, hst⟩
    exact ⟨ht, (horder ht).2 ho, hb, ha, (h.mayBegin_iff hs ht hx).2 hst⟩

/-! ### The same transitions -/

theorem busyEnd_sensed (radio : Reference) (config : Config) (now duration : Number) (on : Sensing)
    (band : Band) (step : Number) :
    (radio.sensed config now duration on).busyEnd band step =
      if on.band.sameKey band && (on.stepIn config).same step then
        max ((now.value + duration.value : ℚ) : WithBot ℚ) (radio.busyEnd band step)
      else radio.busyEnd band step := by
  have hon : Energy.isOn ⟨on.band, on.stepIn config, now.value + duration.value⟩ band step =
      (on.band.sameKey band && (on.stepIn config).same step) := rfl
  rw [sensed, busyEnd, busyEnd, List.filter_cons, hon]
  split
  · rw [List.map_cons, List.maximum_cons]
  · rfl

/-- Energy is recorded alike. -/
theorem Matches.sensed (h : radio.Matches config core) (hs : core.Sound) {on : Sensing}
    (hon : (on.thresholdIn config).isFinite) {now duration : Number}
    (hsum : (now + duration).isFinite)
    (hexact : (now + duration).value = now.value + duration.value) :
    (radio.sensed config now duration on).Matches config (core.sensed config now duration on) := by
  have htable : (core.sensed config now duration on).table =
      core.table.detected on.band (on.stepIn config) now duration := by
    unfold Core.sensed
    rw [Sensing.step_eq hs.resolution h.resolution hon]
  have hrecord := core.record_sensed config now duration on
  refine ⟨hrecord ▸ h.off, hrecord ▸ h.sleeping, hrecord ▸ h.receiving, hrecord ▸ h.txEnd,
    hrecord ▸ h.rxEnd, hrecord ▸ h.switchingEnd, fun band step => ?_, ?_⟩
  · rw [htable, BusyTable.busyEndOn_detected hs.entries _ _ _ _ hsum, busyEnd_sensed, h.energy, hexact]
  · rw [Core.resolution_sensed]
    exact h.resolution

/-- So is energy that is recorded only if it lasts. -/
theorem Matches.sensed_of_lasting (h : radio.Matches config core) (hs : core.Sound) {on : Sensing}
    (hon : (on.thresholdIn config).isFinite) {now duration : Number} (hdur : duration.isTime)
    (hsum : (now + duration).isFinite ∧ (now + duration).value = now.value + duration.value) :
    (if 0 < duration.value then radio.sensed config now duration on else radio).Matches config
      (if 0 < duration then core.sensed config now duration on else core) := by
  have hpos : 0 < duration ↔ 0 < duration.value := by
    rw [Number.lt_iff Number.isFinite_zero (Number.isFinite_of_isTime hdur), Number.value_zero]
  by_cases hd : 0 < duration
  · rw [if_pos hd, if_pos (hpos.1 hd)]
    exact h.sensed hs hon hsum.1 hsum.2
  · rw [if_neg hd, if_neg (hpos.not.1 hd)]
    exact h

/-- The clock of the reference radio goes with the latest transition. -/
theorem clock_after (hs : core.Sound) (hclock : core.latest.value = radio.clock) {x : Transition}
    (hx : x.Permitted config core) (hends : x.EndsLater) :
    (x.after config core).latest.value = (radio.after config x).clock := by
  rw [hs.latest_after hx hends]
  cases x with
  | continueReception => exact hclock
  | detectEnergy now duration on isPrimary => cases isPrimary <;> rfl
  | _ => rfl

/-- It does not matter what the clock shows. -/
theorem Matches.withClock (h : radio.Matches config core) (t : ℚ) :
    { radio with clock := t }.Matches config core :=
  ⟨h.off, h.sleeping, h.receiving, h.txEnd, h.rxEnd, h.switchingEnd, h.energy, h.resolution⟩

/-- It does not matter how far was reported. -/
theorem Matches.withCursor (h : radio.Matches config core) (t : Number) :
    radio.Matches config { core with cursor := t } :=
  ⟨h.off, h.sleeping, h.receiving, h.txEnd, h.rxEnd, h.switchingEnd, h.energy, h.resolution⟩

/-- Transitions do the same to both. -/
theorem Matches.enacted (hs : core.Sound) (h : radio.Matches config core) {x : Transition}
    (ht : x.time.isTime) (hargs : x.ArgumentsValid) (hthr : x.HasFiniteThreshold config)
    (hexact : x.SumsExactly) :
    (Reference.enacted config x radio).Matches config (x.enacted config core) := by
  have hdur := Transition.isTime_of_duration? hargs
  cases x with
  | transmit now duration =>
    have hsum := hexact duration rfl ht (hdur duration rfl)
    exact ⟨h.off, h.sleeping, rfl, hsum.2, h.rxEnd, h.switchingEnd, h.energy, h.resolution⟩
  | receive now duration =>
    have hsum := hexact duration rfl ht (hdur duration rfl)
    exact ⟨h.off, h.sleeping, rfl, h.txEnd, hsum.2, h.switchingEnd, h.energy, h.resolution⟩
  | retune now duration =>
    have hsum := hexact duration rfl ht (hdur duration rfl)
    exact ⟨h.off, h.sleeping, h.receiving, h.txEnd, h.rxEnd, hsum.2, h.energy, h.resolution⟩
  | completeReception | loseReception | abortReception =>
    exact ⟨h.off, h.sleeping, rfl, h.txEnd, rfl, h.switchingEnd, h.energy, h.resolution⟩
  | continueReception | flush =>
    exact ⟨h.off, h.sleeping, h.receiving, h.txEnd, h.rxEnd, h.switchingEnd, h.energy, h.resolution⟩
  | fallAsleep =>
    exact ⟨h.off, rfl, h.receiving, h.txEnd, h.rxEnd, h.switchingEnd, h.energy, h.resolution⟩
  | powerOff => exact ⟨rfl, rfl, h.receiving, h.txEnd, h.rxEnd, h.switchingEnd, h.energy, h.resolution⟩
  | detectEnergy now duration on isPrimary =>
    have hsum := hexact duration rfl ht (hdur duration rfl)
    have hsensed := h.sensed hs (hthr on rfl) hsum.1 hsum.2
    exact ⟨hsensed.off, hsensed.sleeping, hsensed.receiving, hsensed.txEnd, hsensed.rxEnd,
      hsensed.switchingEnd, hsensed.energy, hsensed.resolution⟩
  | wakeUp now duration on =>
    have hawake : Matches config { radio with sleeping := false } ((Change.awake now).apply core) :=
      ⟨h.off, rfl, h.receiving, h.txEnd, h.rxEnd, h.switchingEnd, h.energy, h.resolution⟩
    have hsound : ((Change.awake now).apply core).Sound := hs.withFlags ht rfl
    exact hawake.sensed_of_lasting hsound (hthr on rfl) (hdur duration rfl)
      (hexact duration rfl ht (hdur duration rfl))
  | powerOn now duration on =>
    have hon : Matches config { radio with off := false } ((Change.poweredOn now).apply core) :=
      ⟨rfl, h.sleeping, h.receiving, h.txEnd, h.rxEnd, h.switchingEnd, h.energy, h.resolution⟩
    have hsound : ((Change.poweredOn now).apply core).Sound := hs.withFlags ht rfl
    exact hon.sensed_of_lasting hsound (hthr on rfl) (hdur duration rfl)
      (hexact duration rfl ht (hdur duration rfl))

/-- The reference radio goes on standing for what the tracker remembers. -/
theorem Matches.after (hs : core.Sound) (h : radio.Matches config core) {x : Transition}
    (hx : x.Permitted config core) (hthr : x.HasFiniteThreshold config) (hexact : x.SumsExactly) :
    (radio.after config x).Matches config (x.after config core) := by
  have hsound : Core.Sound { core with cursor := x.cursorAfter core } :=
    hs.withCursor (hs.isTime_cursorAfter hx) (hs.cursor_le_cursorAfter hx)
  exact ((h.withCursor _).enacted hsound hx.time hx.arguments hthr hexact).withClock _

end Answers

end Reference

end RadioOccupancy
