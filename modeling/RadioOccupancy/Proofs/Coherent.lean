import RadioOccupancy.Proofs.Effect
import RadioOccupancy.Proofs.Sound
import RadioOccupancy.Proofs.Sum

/-!
What a tracker remembers is coherent at every moment, whatever observers do.

    tx   |-------|
    rx           |---------|
                      ^ lastChange

A radio is half duplex: of the latest transmission and the latest reception at least one is over by the
time of the latest transition. `Core.Coherent` collects this and what it rests on: the order of the ends
of each interval, and that nothing has begun after the latest transition. It is kept by each change that a
permitted transition makes, so it holds after each beginning of the deeds of one
(`Coherent.throughout_deeds`), and thus also where an observer fails in the middle.

No sum of times is taken to be exact, or finite: all that is used is that a time plus a duration is not
before the time.
-/

namespace RadioOccupancy

/-- What is remembered is coherent. -/
structure Core.Coherent (core : Core) : Prop where
  cursor : core.cursor.isTime
  lastChange : core.record.lastChange.isTime
  power : ¬(core.record.sleeping = true ∧ core.record.poweredOff = true)
  ordered : ∀ a ∈ core.record.activities, a.interval.start ≤ a.interval.stop
  begun : ∀ a ∈ core.record.activities,
    a.interval.start ≤ core.cursor ∧ a.interval.start ≤ core.record.lastChange
  dormant : core.record.dormantSince ≤ core.record.lastChange
  /-- a transmission or a reception is over by the latest transition -/
  duplex : core.record.tx.stop.minimum core.record.rx.stop ≤ core.record.lastChange
  /-- a reception that is open has begun after the transmission before it -/
  receiving : core.record.receiving = true → core.record.tx.stop ≤ core.record.rx.start

/-- A transmission and a reception do not both run on at any time at which a transition can be
requested. -/
def Core.HalfDuplex (core : Core) : Prop :=
  ∀ now : Number, now.isTime → ¬now < core.latest →
    ¬(now < core.record.tx.stop ∧ now < core.record.rx.stop)

namespace Core.Coherent

variable {core : Core} {now duration t : Number}

/-! ### What follows from coherence -/

/-- A transition that comes in order is neither before the latest one nor before the cursor. -/
theorem le_of_order (h : core.Coherent) (hnow : now.isTime) (horder : ¬now < core.latest) :
    core.record.lastChange ≤ now ∧ core.cursor ≤ now := by
  have hl := Number.isFinite_of_isTime h.lastChange
  have hc := Number.isFinite_of_isTime h.cursor
  have hn := Number.isFinite_of_isTime hnow
  rw [Number.le_iff hl hn, Number.le_iff hc hn]
  rw [Core.latest] at horder
  rcases Number.maximum_eq hl hc with ⟨heq, hle⟩ | ⟨heq, hle⟩ <;> rw [heq] at horder
  · rw [Number.lt_iff hn hl, not_lt] at horder
    exact ⟨horder, hle.trans horder⟩
  · rw [Number.lt_iff hn hc, not_lt] at horder
    exact ⟨hle.trans horder, horder⟩

/-- The latest transmission and the latest reception do not both run on. -/
theorem not_both (h : core.Coherent) (hle : core.record.lastChange ≤ now) :
    ¬(now < core.record.tx.stop ∧ now < core.record.rx.stop) := fun ⟨htx, hrx⟩ =>
  Number.not_minimum_le htx hrx (Number.le_trans h.duplex hle)

theorem halfDuplex (h : core.Coherent) : core.HalfDuplex := fun _ hnow horder =>
  h.not_both (h.le_of_order hnow horder).1

/-- No end of an interval is undefined. -/
theorem not_isNaN_stop (h : core.Coherent) :
    core.record.tx.stop.isNaN = false ∧ core.record.rx.stop.isNaN = false := by
  obtain ⟨-, htx, hrx⟩ := Record.forall_activities.1 h.ordered
  exact ⟨(Number.le_iff_rank.1 htx).2.1, (Number.le_iff_rank.1 hrx).2.1⟩

/-! ### What changes keep it -/

/-- Coherence is about the record and the cursor. -/
theorem congr {core' : Core} (h : core.Coherent) (hrecord : core'.record = core.record)
    (hcursor : core'.cursor = core.cursor) : core'.Coherent := by
  cases core'
  cases core
  obtain rfl : _ = _ := hrecord
  obtain rfl : _ = _ := hcursor
  exact ⟨h.1, h.2, h.3, h.4, h.5, h.6, h.7, h.8⟩

theorem withCursor (h : core.Coherent) (ht : t.isTime) (hle : core.cursor ≤ t) :
    { core with cursor := t }.Coherent :=
  { h with
    cursor := ht
    begun := fun a ha => ⟨Number.le_trans (h.begun a ha).1 hle, (h.begun a ha).2⟩ }

/-- Another time of the latest transition, and other flags. -/
theorem withFlags (h : core.Coherent) {r : Record} (hnow : r.lastChange.isTime)
    (hle : core.record.lastChange ≤ r.lastChange) (hsame : r.activities = core.record.activities)
    (hpower : ¬(r.sleeping = true ∧ r.poweredOff = true))
    (hdormant : r.dormantSince = core.record.dormantSince ∨ r.dormantSince = r.lastChange)
    (hreceiving : r.receiving = core.record.receiving) : { core with record := r }.Coherent := by
  have hintervals : r.switching = core.record.switching ∧ r.tx = core.record.tx ∧
      r.rx = core.record.rx := by
    simpa [Record.activities] using hsame
  obtain ⟨-, htx, hrx⟩ := hintervals
  refine ⟨h.cursor, hnow, hpower, ?_, ?_, ?_, ?_, ?_⟩
  · rw [hsame]
    exact h.ordered
  · rw [hsame]
    exact fun a ha => ⟨(h.begun a ha).1, Number.le_trans (h.begun a ha).2 hle⟩
  · rcases hdormant with hd | hd <;> rw [hd]
    · exact Number.le_trans h.dormant hle
    · exact Number.le_rfl_of_isTime hnow
  · rw [htx, hrx]
    exact Number.le_trans h.duplex hle
  · rw [htx, hrx, hreceiving]
    exact h.receiving

/-- What has begun by the latest transition has begun by a later one. -/
theorem begun_later (h : core.Coherent) (hle : core.record.lastChange ≤ now) :
    ∀ a ∈ core.record.activities, a.interval.start ≤ core.cursor ∧ a.interval.start ≤ now :=
  fun a ha => ⟨(h.begun a ha).1, Number.le_trans (h.begun a ha).2 hle⟩

/-- An activity begins. -/
theorem lasting (hnow : now.isTime) (hd : duration.isTime) (hcursor : now ≤ core.cursor) :
    (Interval.lasting now duration).start ≤ (Interval.lasting now duration).stop ∧
      (Interval.lasting now duration).start ≤ core.cursor ∧
        (Interval.lasting now duration).start ≤ now :=
  ⟨Number.le_add hnow hd, hcursor, Number.le_rfl_of_isTime hnow⟩

/-- A transmission may begin when no reception is running. -/
theorem transmitting (h : core.Coherent) (hnow : now.isTime) (hd : duration.isTime)
    (hle : core.record.lastChange ≤ now) (hcursor : now ≤ core.cursor)
    (hrx : core.record.rx.stop ≤ now) : ((Change.transmitting now duration).apply core).Coherent := by
  obtain ⟨hordered, hbegun, hbegun'⟩ := lasting hnow hd hcursor
  obtain ⟨hs, -, hr⟩ := Record.forall_activities.1 h.ordered
  obtain ⟨hs', -, hr'⟩ := Record.forall_activities.1 (h.begun_later hle)
  refine ⟨h.cursor, hnow, h.power, Record.forall_activities.2 ⟨hs, hordered, hr⟩,
    Record.forall_activities.2 ⟨hs', ⟨hbegun, hbegun'⟩, hr'⟩, Number.le_trans h.dormant hle, ?_, ?_⟩
  · have hnan := (Number.le_iff_rank.1 hordered).2.1
    exact Number.le_trans (Number.minimum_le_right hnan h.not_isNaN_stop.2) hrx
  · rintro ⟨⟩

/-- A reception may begin when no transmission is running. -/
theorem beginReceiving (h : core.Coherent) (hnow : now.isTime) (hd : duration.isTime)
    (hle : core.record.lastChange ≤ now) (hcursor : now ≤ core.cursor)
    (htx : core.record.tx.stop ≤ now) : ((Change.receiving now duration).apply core).Coherent := by
  obtain ⟨hordered, hbegun, hbegun'⟩ := lasting hnow hd hcursor
  obtain ⟨hs, ht, -⟩ := Record.forall_activities.1 h.ordered
  obtain ⟨hs', ht', -⟩ := Record.forall_activities.1 (h.begun_later hle)
  refine ⟨h.cursor, hnow, h.power, Record.forall_activities.2 ⟨hs, ht, hordered⟩,
    Record.forall_activities.2 ⟨hs', ht', hbegun, hbegun'⟩, Number.le_trans h.dormant hle, ?_, ?_⟩
  · have hnan := (Number.le_iff_rank.1 hordered).2.1
    exact Number.le_trans (Number.minimum_le_left h.not_isNaN_stop.1 hnan) htx
  · exact fun _ => htx

theorem switching (h : core.Coherent) (hnow : now.isTime) (hd : duration.isTime)
    (hle : core.record.lastChange ≤ now) (hcursor : now ≤ core.cursor) :
    ((Change.switching now duration).apply core).Coherent := by
  obtain ⟨hordered, hbegun, hbegun'⟩ := lasting hnow hd hcursor
  obtain ⟨-, ht, hr⟩ := Record.forall_activities.1 h.ordered
  obtain ⟨-, ht', hr'⟩ := Record.forall_activities.1 (h.begun_later hle)
  exact ⟨h.cursor, hnow, h.power, Record.forall_activities.2 ⟨hordered, ht, hr⟩,
    Record.forall_activities.2 ⟨⟨hbegun, hbegun'⟩, ht', hr'⟩, Number.le_trans h.dormant hle,
    Number.le_trans h.duplex hle, h.receiving⟩

/-- A reception that ends is over. -/
theorem closed (h : core.Coherent) (hnow : now.isTime) (hle : core.record.lastChange ≤ now) :
    ((Change.closed now).apply core).Coherent := by
  obtain ⟨hs, ht, -⟩ := Record.forall_activities.1 h.ordered
  obtain ⟨hs', ht', hr'⟩ := Record.forall_activities.1 (h.begun_later hle)
  refine ⟨h.cursor, hnow, h.power, Record.forall_activities.2 ⟨hs, ht, hr'.2⟩,
    Record.forall_activities.2 ⟨hs', ht', hr'⟩, Number.le_trans h.dormant hle, ?_, ?_⟩
  · exact Number.minimum_le_right h.not_isNaN_stop.1 (Number.not_isNaN_of_isTime hnow)
  · rintro ⟨⟩

theorem stamped (h : core.Coherent) (hnow : now.isTime) (hle : core.record.lastChange ≤ now) :
    ((Change.stamped now).apply core).Coherent :=
  h.withFlags hnow hle rfl h.power (Or.inl rfl) rfl

/-- A radio that is on falls asleep. -/
theorem asleep (h : core.Coherent) (hnow : now.isTime) (hle : core.record.lastChange ≤ now)
    (hon : core.record.poweredOff = false) : ((Change.asleep now).apply core).Coherent := by
  refine h.withFlags hnow hle rfl ?_ ?_ rfl
  · rintro ⟨-, hoff⟩
    rw [show ((Change.asleep now).applyToRecord core.record).poweredOff = false from hon] at hoff
    cases hoff
  · exact ite_eq_or_eq _ _ _

theorem awake (h : core.Coherent) (hnow : now.isTime) (hle : core.record.lastChange ≤ now) :
    ((Change.awake now).apply core).Coherent :=
  h.withFlags hnow hle rfl (by rintro ⟨⟨⟩, -⟩) (Or.inl rfl) rfl

theorem poweredOff (h : core.Coherent) (hnow : now.isTime) (hle : core.record.lastChange ≤ now) :
    ((Change.poweredOff now).apply core).Coherent :=
  h.withFlags hnow hle rfl (by rintro ⟨⟨⟩, -⟩) (ite_eq_or_eq _ _ _) rfl

theorem poweredOn (h : core.Coherent) (hnow : now.isTime) (hle : core.record.lastChange ≤ now) :
    ((Change.poweredOn now).apply core).Coherent :=
  h.withFlags hnow hle rfl (by rintro ⟨-, ⟨⟩⟩) (Or.inl rfl) rfl

/-! ### Reports keep it -/

/-- The radio's own activities are reported up to `now` at most. -/
theorem throughout_ownSegments (hnow : now.isTime) (pending : List Activity) (t : Number)
    (h : core.Coherent) (hle : core.cursor ≤ now) (ht : core.cursor = t) :
    Throughout (fun core => core.Coherent ∧ core.cursor ≤ now)
      (Report.tellProgress (Report.ownSegments now pending t)) core := by
  fun_induction Report.ownSegments now pending t generalizing core with
  | case1 pending t hlt a others hfirst stop =>
    rename_i ih
    subst ht
    obtain ⟨before, after, -, -, hrun, -⟩ := Report.firstRunning?_some hfirst
    rw [Interval.isRunning, Bool.and_eq_true, decide_eq_true_iff] at hrun
    have hrun := Number.le_of_lt hrun.1
    have hstop : core.cursor ≤ stop := Number.le_minimum hrun (Number.le_of_lt hlt)
    have hstop' : stop ≤ now :=
      Number.minimum_le_right (Number.le_iff_rank.1 hrun).2.1 (Number.not_isNaN_of_isTime hnow)
    have htime : stop.isTime := Number.isTime_of_le
      (Number.le_trans (Number.zero_le_of_isTime h.cursor) hstop) hstop' hnow
    have hboth : core.Coherent ∧ core.cursor ≤ now := ⟨h, hle⟩
    rw [Report.tellProgress_cons]
    exact .tellSegment hboth _ ⟨hboth, ih (h.withCursor htime hstop) hstop' rfl⟩
  | case2 => exact ⟨h, hle⟩
  | case3 => exact ⟨h, hle⟩

/-- States are reported up to `now` at most, and no less far if the report is about a band. -/
theorem throughout_reportUntil (h : core.Coherent) (hnow : now.isTime) (hle : core.cursor ≤ now)
    (entry : Option BusyEntry) :
    Throughout (fun core => core.Coherent ∧ core.cursor ≤ now) (core.reportDeeds entry now) core := by
  have hboth : core.Coherent ∧ core.cursor ≤ now := ⟨h, hle⟩
  have hself := Number.le_rfl_of_isTime hnow
  rw [Core.reportDeeds]
  split
  · exact hboth
  · cases core.record.powerState? with
    | some state => exact .tellSegment hboth _ ⟨hboth, h.withCursor hnow hle, hself⟩
    | none =>
      have hown := h.throughout_ownSegments hnow core.record.activities core.cursor hle rfl
      obtain ⟨h', hle'⟩ := hown.last
      exact hown.append (.tellSegments ⟨h', hle'⟩ _ ⟨⟨h', hle'⟩, h'.withCursor hnow hle', hself⟩)

variable {config : Config} {x : Transition}

/-- The report of a transition that comes in order. -/
theorem throughout_report (h : core.Coherent) (hnow : x.time.isTime) (hle : core.cursor ≤ x.time) :
    Throughout Core.Coherent (x.reportDeeds config core) core := by
  have huntil := fun entry => (h.throughout_reportUntil hnow hle entry).mono fun _ h => h.1
  cases x with
  | transmit | receive | retune | fallAsleep | wakeUp | powerOff | powerOn | flush => exact huntil _
  | detectEnergy now duration on isPrimary =>
    cases isPrimary with
    | true => exact huntil _
    | false => exact h
  | completeReception | loseReception | abortReception =>
    exact (h.throughout_ownSegments hnow core.record.activities core.cursor hle rfl).mono
      fun _ h => h.1
  | continueReception => exact h

theorem le_cursorUntil (hnow : now.isTime) : now ≤ core.cursorUntil now := by
  rw [Core.cursorUntil]
  split
  · assumption
  · exact Number.le_rfl_of_isTime hnow

end Core.Coherent

/-! ### What the state of the radio allows -/

/-- The states that a radio may show are those that its own state allows. -/
theorem Core.Shows.allows {core : Core} {config : Config} {now : Number} {on : Sensing}
    {allowed : Radio.State → Prop} (h : core.Shows config now on allowed) {s : Radio.State}
    (hs : core.record.ownState? now = some s) : allowed s := by
  obtain ⟨state, hstate, hallowed⟩ := h
  rw [Record.stateOn_of_own hs] at hstate
  obtain rfl := Except.ok.inj hstate
  exact hallowed

/-- A radio that is off shows that. -/
theorem Record.ownState?_of_poweredOff {r : Record} (h : r.poweredOff = true) (now : Number) :
    r.ownState? now = some .off := by
  rw [ownState?, powerState?, if_pos h]
  rfl

/-- A radio with an activity that has not ended shows a state of its own: that it is dormant, or the
activity that masks the others. -/
theorem Record.ownState?_of_running {r : Record} {now : Number}
    (h : now < r.tx.stop ∨ now < r.rx.stop) :
    r.ownState? now = some .off ∨ r.ownState? now = some .sleep ∨
      r.ownState? now = some .switching ∨ now < r.tx.stop ∧ r.ownState? now = some .tx ∨
        ¬now < r.tx.stop ∧ r.ownState? now = some .rx := by
  rw [ownState?, activity?_eq, powerState?]
  cases r.poweredOff with
  | true => simp
  | false =>
    cases r.sleeping with
    | true => simp
    | false =>
      by_cases hs : now < r.switching.stop
      · simp [hs]
      · by_cases ht : now < r.tx.stop
        · simp [hs, ht]
        · simp [hs, ht, h.resolve_left ht]

namespace Core.Coherent

variable {core : Core} {config : Config} {now : Number} {on : Sensing}

/-- A radio that may transmit is not receiving: a reception that has not ended would show, unless a
transmission masked it, and both together are excluded. -/
theorem rx_ended (h : core.Coherent) (hnow : now.isTime) (hle : core.record.lastChange ≤ now)
    (hstate : core.Shows config now on (· ∉ [.off, .sleep, .rx, .switching])) :
    core.record.rx.stop ≤ now := by
  refine Number.le_of_not_lt h.not_isNaN_stop.2 (Number.not_isNaN_of_isTime hnow) fun hrx => ?_
  rcases Record.ownState?_of_running (Or.inr hrx) with hs | hs | hs | ⟨htx, -⟩ | ⟨-, hs⟩
  · exact hstate.allows hs (by simp)
  · exact hstate.allows hs (by simp)
  · exact hstate.allows hs (by simp)
  · exact h.not_both hle ⟨htx, hrx⟩
  · exact hstate.allows hs (by simp)

/-- A radio that may receive is not transmitting. -/
theorem tx_ended (h : core.Coherent) (hnow : now.isTime)
    (hstate : core.Shows config now on (· ∈ [.idle, .ccaBusy])) : core.record.tx.stop ≤ now := by
  refine Number.le_of_not_lt h.not_isNaN_stop.1 (Number.not_isNaN_of_isTime hnow) fun htx => ?_
  rcases Record.ownState?_of_running (Or.inl htx) with hs | hs | hs | ⟨-, hs⟩ | ⟨hnot, -⟩
  · simpa using hstate.allows hs
  · simpa using hstate.allows hs
  · simpa using hstate.allows hs
  · simpa using hstate.allows hs
  · exact hnot htx

/-! ### Transitions keep it -/

/-- Energy is no part of the record. -/
theorem throughout_sense (h : core.Coherent) (before : Core) (duration : Number) (isPrimary : Bool) :
    Throughout Core.Coherent (before.senseDeeds config now duration on isPrimary) core := by
  have hbusy : ∀ entry, ((Change.busy entry).apply core).Coherent := fun _ => h.congr rfl rfl
  rw [Core.senseDeeds]
  split
  · dsimp only
    split_ifs
    · exact ⟨h, hbusy _, hbusy _⟩
    · exact ⟨h, hbusy _⟩
    · exact ⟨h, h⟩
    · exact h
  · exact h

/-- A transition that has reported keeps it at each of its deeds. The record is still the one by which it
was permitted. -/
theorem throughout_enact (h : core.Coherent) {before : Core} {x : Transition}
    (hp : x.Permitted config before) (hrecord : core.record = before.record)
    (hle : before.record.lastChange ≤ x.time) (hbefore : before.Coherent)
    (hcursor : x.sensing?.isSome → x.Reports → x.time ≤ core.cursor) :
    Throughout Core.Coherent (x.enactDeeds config before) core := by
  have hnow := hp.time
  have hdur := Transition.isTime_of_duration? hp.arguments
  have hle' : core.record.lastChange ≤ x.time := hrecord ▸ hle
  cases x with
  | transmit now duration ppdu power vector on =>
    have hrx := hrecord ▸ hbefore.rx_ended hnow hle hp.state
    have hnext := h.transmitting hnow (hdur _ rfl) hle' (hcursor rfl rfl) hrx
    exact ⟨h, hnext, hnext⟩
  | receive now duration on =>
    have htx := hrecord ▸ hbefore.tx_ended hnow hp.state
    have hnext := h.beginReceiving hnow (hdur _ rfl) hle' (hcursor rfl rfl) htx
    exact ⟨h, hnext, hnext⟩
  | retune now duration on =>
    have hnext := h.switching hnow (hdur _ rfl) hle' (hcursor rfl rfl)
    exact ⟨h, hnext, hnext⟩
  | continueReception => exact ⟨h, h.congr rfl rfl⟩
  | completeReception now | loseReception now =>
    have hnext := h.closed hnow hle'
    exact ⟨h, hnext, hnext⟩
  | abortReception now failure =>
    have hnext := h.closed hnow hle'
    cases failure
    · exact ⟨h, hnext⟩
    · exact ⟨h, hnext, hnext⟩
  | detectEnergy now duration on isPrimary =>
    have hsense : Throughout Core.Coherent (before.senseDeeds config now duration on isPrimary) core :=
      h.throughout_sense before duration isPrimary
    have hlast : (coreAfter (before.senseDeeds config now duration on isPrimary) core).record.lastChange
        ≤ now := by
      rw [record_of_writeRecord (Transition.writeRecord_senseDeeds ..)]
      exact hle'
    exact hsense.append ⟨hsense.last, hsense.last.stamped hnow hlast⟩
  | fallAsleep now on =>
    have hon : core.record.poweredOff = false := by
      rw [hrecord, ← Bool.not_eq_true]
      intro hoff
      exact hp.state.allows (Record.ownState?_of_poweredOff hoff now) (by simp)
    have hnext := h.asleep hnow hle' hon
    exact ⟨h, hnext, hnext⟩
  | wakeUp now duration on isPrimary =>
    have hnext := h.awake hnow hle'
    refine ⟨h, hnext, ?_⟩
    split
    · exact hnext.throughout_sense before duration isPrimary
    · exact hnext
  | powerOff now on =>
    have hnext := h.poweredOff hnow hle'
    exact ⟨h, hnext, hnext⟩
  | powerOn now duration on isPrimary =>
    have hnext := h.poweredOn hnow hle'
    refine ⟨h, hnext, ?_⟩
    split
    · exact hnext.throughout_sense before duration isPrimary
    · exact hnext
  | flush => exact h

/-- A permitted transition keeps it at each of its deeds. -/
theorem throughout_deeds (h : core.Coherent) {x : Transition} (hp : x.Permitted config core) :
    Throughout Core.Coherent (x.deeds config core) core := by
  obtain ⟨hlast, hcursor⟩ := h.le_of_order hp.time hp.order
  have hreport : Throughout Core.Coherent (x.reportDeeds config core) core :=
    h.throughout_report hp.time hcursor
  refine hreport.append (hreport.last.throughout_enact hp ?_ hlast h ?_)
  · rw [Transition.coreAfter_reportDeeds]
  · intro hon hr
    rw [Transition.coreAfter_reportDeeds]
    cases x with
    | detectEnergy now duration on isPrimary =>
      cases isPrimary with
      | true => exact le_cursorUntil hp.time
      | false => cases hr
    | continueReception | completeReception | loseReception | abortReception => cases hon
    | _ => exact le_cursorUntil hp.time

end Core.Coherent

/-- What a new tracker remembers is coherent. -/
theorem Core.coherent_fresh (config : Config) : (Core.fresh config).Coherent := by
  have hle : (0 : Number) ≤ 0 := Number.le_rfl_of_isTime Number.isTime_zero
  refine ⟨Number.isTime_zero, Number.isTime_zero, by rintro ⟨⟨⟩, -⟩,
    Record.forall_activities.2 ⟨hle, hle, hle⟩,
    Record.forall_activities.2 ⟨⟨hle, hle⟩, ⟨hle, hle⟩, hle, hle⟩, hle, ?_, by rintro ⟨⟩⟩
  have hnan := Number.not_isNaN_of_isTime Number.isTime_zero
  exact Number.minimum_le_left hnan hnan

/-- Trials keep a fresh start coherent, in the end and at each moment of each attempt. -/
theorem Trials.keeps_coherent {config : Config} {core : Core} {attempts : List Attempt}
    (h : Trials config (.fresh config) attempts core) :
    core.Coherent ∧ ∀ a ∈ attempts, ∀ steps, steps <+: a.begun → (coreAfter steps a.tracker.core).Coherent :=
  h.kept (Core.coherent_fresh config) fun _ _ h hp => h.throughout_deeds hp

/-- Whatever is requested of a session in which a tracker begins is a course of events. In every course,
whatever observers do and whether they fail, what the tracker remembers is coherent and half duplex, in the
end and at each moment of each attempt. -/
theorem Session.Starts.coherent {s : Session} {i : Nat} {config : Config} (hs : s.Starts i config) :
    (∀ rs : List Request, ∃ attempts, Course i s attempts (s.after rs)) ∧
    ∀ attempts s', Course i s attempts s' →
      ∃ t, s'.trackers[i]? = some t ∧ (t.core.Coherent ∧ t.core.HalfDuplex) ∧
        ∀ a ∈ attempts, ∀ steps, steps <+: a.begun →
          (coreAfter steps a.tracker.core).Coherent ∧ (coreAfter steps a.tracker.core).HalfDuplex := by
  refine ⟨course_steps i s, fun attempts s' hcourse => ?_⟩
  obtain ⟨t, ht, -, -, htrials⟩ := hcourse.trials hs
  obtain ⟨hend, hmid⟩ := htrials.keeps_coherent
  exact ⟨t, ht, ⟨hend, hend.halfDuplex⟩,
    fun a ha steps hpre => ⟨hmid a ha steps hpre, (hmid a ha steps hpre).halfDuplex⟩⟩

/-- A listener fails when a reception begins. The reception is open all the same, and what is remembered was
coherent when the listener was called. -/
theorem Session.coherent_of_failed_listener :
    ∃ a s t, Course 0 (firstUnder "radio") [a] s ∧ a.broken.isSome = true ∧ s.trackers[0]? = some t ∧
      t.core.record.receiving = true ∧ (t.core.Coherent ∧ t.core.HalfDuplex) ∧
        (coreAfter a.begun a.tracker.core).Coherent ∧ (coreAfter a.begun a.tracker.core).HalfDuplex := by
  let observed : Session :=
    { (firstUnder "radio").modifyTracker 0 fun t => { t with listeners := t.listeners.register "mac" } with
      scripts := [("mac onRxStart", [⟨.raise "not ready", true⟩])] }
  have hkeep : KeepsAt 0 (firstUnder "radio") observed := by
    rintro t ⟨⟩
    exact ⟨_, rfl, rfl, rfl, rfl, rfl⟩
  let xs : List Transition := [.receive 0 50 ⟨⟨0, 63⟩, none⟩]
  have hcourse := (Course.meanwhile .nil hkeep).attemptAll 1 xs
  have hall : (attemptAll 1 0 xs [] observed).1.map (fun a => a.broken.isSome) = [true] ∧
      (attemptAll 1 0 xs [] observed).2.trackers[0]?.any (fun t => t.core.record.receiving) = true := by
    decide
  obtain ⟨hbroken, hopen⟩ := hall
  obtain ⟨a, hmade, hbroken⟩ := List.map_eq_singleton_iff.1 hbroken
  rw [hmade] at hcourse
  obtain ⟨t, ht, hend, hmid⟩ := (starts_firstUnder "radio").coherent.2 _ _ hcourse
  rw [ht] at hopen
  exact ⟨a, _, t, hcourse, hbroken, ht, hopen, hend, hmid a (List.mem_singleton_self a) _ List.prefix_rfl⟩

end RadioOccupancy
