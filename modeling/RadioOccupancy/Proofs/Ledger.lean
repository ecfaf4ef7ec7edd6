import RadioOccupancy.Proofs.Coherent

/-!
What has been told, and how far the cursor has come, at each moment of a transition.

    deeds:   own  move  own  move | idle  busy  idle  move | ...
    cursor:       ^          ^                        ^
    pending: -----      -----      ------------------

A segment that has been told is settled once the cursor has moved to its end, and pending until then. The
radio's own activities are settled one by one, the segments of a band all at once. So after each beginning of
the deeds of a transition, what is settled reaches from the old cursor to the new one, and what is pending
goes on from there (`Transition.ledger`). Only a report that stands among the segments of a band, or between
a segment and its move, has something pending.

Sums of times need not be finite or exact here: it is enough that busy periods do not end before they begin
(`Core.Dated`).
-/

namespace RadioOccupancy

/-! ### Busy periods have a beginning -/

/-- Each busy period begins at a time, and it does not end before that. -/
def Core.Dated (core : Core) : Prop :=
  ∀ e ∈ core.table.entries, e.busyStart.isTime ∧ e.busyStart ≤ e.busyEnd

theorem Core.dated_fresh (config : Config) : (Core.fresh config).Dated := by
  rintro e ⟨⟩

/-- What each change keeps holds throughout. -/
theorem Throughout.of_changes {P : Core → Prop} {steps : List Step} {core : Core} (h : P core)
    (hstep : ∀ c, .change c ∈ steps → ∀ core, P core → P (c.apply core)) : Throughout P steps core := by
  induction steps generalizing core with
  | nil => exact h
  | cons step rest ih =>
    have hrest : ∀ c, .change c ∈ rest → ∀ core, P core → P (c.apply core) :=
      fun c hc => hstep c (List.mem_cons_of_mem _ hc)
    cases step with
    | change c => exact ⟨h, ih (hstep c List.mem_cons_self core h) hrest⟩
    | announce ns => exact ⟨h, ih h hrest⟩
    | log m => exact ⟨h, ih h hrest⟩

theorem Throughout.and {P Q : Core → Prop} {steps : List Step} {core : Core}
    (h : Throughout P steps core) (h' : Throughout Q steps core) :
    Throughout (fun core => P core ∧ Q core) steps core := by
  induction steps generalizing core with
  | nil => exact ⟨h, h'⟩
  | cons step rest ih => exact ⟨⟨h.1, h'.1⟩, ih h.2 h'.2⟩

namespace BusyTable

/-- A detection dates its entry. -/
theorem dated_beside (existing : Option BusyEntry) (band : Band) (step : Number) {now duration : Number}
    (he : ∀ e ∈ existing, e.busyStart.isTime ∧ e.busyStart ≤ e.busyEnd) (hnow : now.isTime)
    (hd : duration.isTime) :
    let entry := (detectionBeside existing band step now duration).entry
    entry.busyStart.isTime ∧ entry.busyStart ≤ entry.busyEnd := by
  have hle : now ≤ now + duration := Number.le_add hnow hd
  cases existing with
  | none => exact ⟨hnow, hle⟩
  | some e =>
    obtain ⟨htime, hstart⟩ := he e rfl
    rw [detectionBeside]
    dsimp only
    split
    · exact ⟨htime, hstart⟩
    · next hlater =>
      have hend : e.busyEnd ≤ now + duration :=
        Number.le_of_not_le (Number.le_iff_rank.1 hstart).2.1 (Number.le_iff_rank.1 hle).2.1 hlater
      dsimp only
      split
      · exact ⟨htime, Number.le_trans hstart hend⟩
      · exact ⟨hnow, hle⟩

end BusyTable

namespace Transition

variable {config : Config} {core : Core} {x : Transition}

/-- A busy entry that a transition sets is that of the latest energy on its key, at a threshold that can be
used. -/
theorem beside_of_mem_deeds (hp : x.Permitted config core) {entry : BusyEntry}
    (hmem : .change (.busy entry) ∈ x.deeds config core) :
    ∃ on ∈ x.recordsOn?, ∃ step duration,
      Threshold.step (on.thresholdIn config) core.table.resolution = .ok step ∧ duration.isTime ∧
      (BusyTable.detectionBeside
        (core.table.find? on.band step) on.band step x.time duration).isLatest = true ∧
      entry = (BusyTable.detectionBeside
        (core.table.find? on.band step) on.band step x.time duration).entry := by
  have hdur := isTime_of_duration? hp.arguments
  have hsense : ∀ now duration on isPrimary,
      .change (.busy entry) ∈ core.senseDeeds config now duration on isPrimary →
        ∃ step, Threshold.step (on.thresholdIn config) core.table.resolution = .ok step ∧
          (BusyTable.detectionBeside
            (core.table.find? on.band step) on.band step now duration).isLatest = true ∧
          entry = (BusyTable.detectionBeside
            (core.table.find? on.band step) on.band step now duration).entry := by
    intro now duration on isPrimary hmem
    rw [Core.senseDeeds, Planning.detection_eq] at hmem
    cases hstep : Threshold.step (on.thresholdIn config) core.table.resolution with
    | error r =>
      rw [hstep] at hmem
      cases hmem
    | ok step =>
      refine ⟨step, rfl, ?_⟩
      rw [hstep] at hmem
      dsimp only [Except.map] at hmem
      rcases List.mem_append.1 hmem with hmem | hmem
      · split at hmem
        · next hlatest => exact ⟨hlatest, Change.busy.inj (Step.change.inj (List.mem_singleton.1 hmem))⟩
        · cases hmem
      · split at hmem
        · cases List.mem_singleton.1 hmem
        · cases hmem
  rcases List.mem_append.1 hmem with hmem | hmem
  · rcases mem_reportDeeds hmem with ⟨t, ht⟩ | ⟨s, hs⟩
    · cases ht
    · cases hs
  · cases x with
    | detectEnergy now duration on isPrimary =>
      rcases List.mem_append.1 hmem with hmem | hmem
      · obtain ⟨step, hstep, h⟩ := hsense now duration on isPrimary hmem
        exact ⟨on, rfl, step, duration, hstep, hdur _ rfl, h⟩
      · cases List.mem_singleton.1 hmem
    | wakeUp now duration on isPrimary | powerOn now duration on isPrimary =>
      rcases List.mem_append.1 hmem with hmem | hmem
      · simp at hmem
      · split at hmem
        · next hpos =>
          obtain ⟨step, hstep, h⟩ := hsense now duration on isPrimary hmem
          exact ⟨on, if_pos hpos, step, duration, hstep, hdur _ rfl, h⟩
        · cases hmem
    | abortReception now failure => cases failure <;> simp [enactDeeds] at hmem
    | _ => simp [enactDeeds] at hmem

/-- A busy entry that a transition sets is dated. -/
theorem dated_of_mem_deeds (hp : x.Permitted config core) (h : core.Dated) {entry : BusyEntry}
    (hmem : .change (.busy entry) ∈ x.deeds config core) :
    entry.busyStart.isTime ∧ entry.busyStart ≤ entry.busyEnd := by
  obtain ⟨on, -, step, duration, -, hd, -, rfl⟩ := beside_of_mem_deeds hp hmem
  exact BusyTable.dated_beside _ on.band step (fun e he => h e (BusyTable.mem_of_find? he)) hp.time hd

/-- The deeds of a permitted transition keep what is dated so. -/
theorem dated_throughout (hp : x.Permitted config core) (h : core.Dated) :
    Throughout Core.Dated (x.deeds config core) core := by
  refine .of_changes h fun c hc core' h' => ?_
  cases c with
  | busy entry =>
    intro e he
    rcases BusyTable.mem_putIn he with rfl | he
    · exact dated_of_mem_deeds hp h hc
    · exact h' e he
  | _ => exact h'

end Transition

/-! ### What is told -/

/-- The state changes that observers are told of in steps. -/
def stateChangesOf (steps : List Step) : List (Number × Number × Radio.State) :=
  (noticesOf steps).filterMap Notice.stateChange?

/-- What observers are told of a segment. -/
def Segment.told (s : Segment) : Number × Number × Radio.State :=
  (s.start, s.stop - s.start, s.state)

/-- The segment tells of a band, and not of what the radio does by itself. -/
def Segment.IsOfBand (s : Segment) : Prop :=
  s.state = .idle ∨ s.state = .ccaBusy

theorem stateChangesOf_append (steps more : List Step) :
    stateChangesOf (steps ++ more) = stateChangesOf steps ++ stateChangesOf more := by
  rw [stateChangesOf, noticesOf_append, List.filterMap_append]
  rfl

theorem stateChangesOf_deedsOf (steps : List Step) :
    stateChangesOf (deedsOf steps) = stateChangesOf steps := by
  rw [stateChangesOf, noticesOf_deedsOf]
  rfl

theorem stateChangesOf_announce (ns : List Notice) :
    stateChangesOf [.announce ns] = ns.filterMap Notice.stateChange? := by
  rw [stateChangesOf, noticesOf_announce]

namespace Report

/-- The segments in which time passes. Only these are told. -/
def timed (segments : List Segment) : List Segment :=
  segments.filter fun s => !s.isEmpty

theorem timed_append (ss us : List Segment) : timed (ss ++ us) = timed ss ++ timed us :=
  List.filter_append ..

/-- The step that tells of a segment. -/
def telling (s : Segment) : Step :=
  .announce [.trace s.event]

/-- The last of the steps tells of a segment. -/
def EndsTelling (steps : List Step) : Prop :=
  ∃ before s, steps = before ++ [telling s]

/-- Telling of segments is telling of those in which time passes. -/
theorem tellSegments_eq (segments : List Segment) :
    segments.flatMap tellSegment = (timed segments).map telling := by
  induction segments with
  | nil => rfl
  | cons s rest ih =>
    rw [List.flatMap_cons, ih, tellSegment, timed, timed, List.filter_cons]
    cases s.isEmpty <;> rfl

theorem stateChangesOf_tell (segments : List Segment) :
    stateChangesOf (segments.map telling) = segments.map Segment.told := by
  induction segments with
  | nil => rfl
  | cons s rest ih =>
    rw [List.map_cons, ← List.singleton_append, stateChangesOf_append, ih, telling, stateChangesOf_announce]
    rfl

theorem coreAfter_tell (segments : List Segment) (core : Core) :
    coreAfter (segments.map telling) core = core := by
  induction segments with
  | nil => rfl
  | cons s rest ih => exact ih

theorem stateChangesOf_tellProgress (segments : List Segment) :
    stateChangesOf (tellProgress segments) = (timed segments).map Segment.told := by
  induction segments with
  | nil => rfl
  | cons s rest ih =>
    have hmove : stateChangesOf (.change (.reported s.stop) :: tellProgress rest) =
        stateChangesOf (tellProgress rest) := rfl
    have hfirst : tellSegment s = (timed [s]).map telling := by
      rw [← tellSegments_eq, List.flatMap_singleton]
    rw [tellProgress_cons, stateChangesOf_append, hmove, ih, hfirst, stateChangesOf_tell, ← List.map_append,
      ← timed_append]
    rfl

/-- A segment in which no time passes can be left out. -/
theorem Follow.timed {a b : ℚ} {segments : List Segment} (h : Follow a segments b) :
    Follow a (timed segments) b := by
  induction segments generalizing a with
  | nil => exact h
  | cons s rest ih =>
    obtain ⟨hstart, hstop, rfl, hle, h⟩ := h
    rw [Report.timed, List.filter_cons]
    split
    · exact ⟨hstart, hstop, rfl, hle, ih h⟩
    · next hempty =>
      rw [Bool.not_eq_true', Bool.not_eq_false, Segment.isEmpty, decide_eq_true_iff,
        Number.le_iff hstop hstart] at hempty
      rw [hempty.antisymm hle] at h
      exact ih h

/-- Each beginning of segments that follow each other does so, and the rest goes on from there. -/
theorem Follow.split {a b : ℚ} {ss us : List Segment} (h : Follow a (ss ++ us) b) :
    ∃ c, Follow a ss c ∧ Follow c us b := by
  induction ss generalizing a with
  | nil => exact ⟨a, rfl, h⟩
  | cons s rest ih =>
    obtain ⟨hstart, hstop, hs, hle, h⟩ := h
    obtain ⟨c, hrest, hus⟩ := ih h
    exact ⟨c, ⟨hstart, hstop, hs, hle, hrest⟩, hus⟩

/-- Segments that follow each other from `t` end where they reach. -/
theorem Follow.reach {t : Number} {b : ℚ} {segments : List Segment} (h : Follow t.value segments b) :
    (Report.reach t segments).value = b := by
  induction segments generalizing t with
  | nil => exact h
  | cons s rest ih =>
    rw [reach_cons]
    exact ih h.2.2.2.2

/-- Segments in which time passes follow each other without sharing any of it. -/
theorem Follow.pairwise {a b : ℚ} {segments : List Segment} (h : Follow a segments b) :
    segments.Pairwise fun s u => s.stop ≤ u.start := by
  induction segments generalizing a with
  | nil => exact .nil
  | cons s rest ih =>
    obtain ⟨-, hstop, -, -, h⟩ := h
    refine .cons (fun u hu => ?_) (ih h)
    obtain ⟨hstart, -, hle, -⟩ := h.mem hu
    exact (Number.le_iff hstop hstart).2 hle

/-- The first of the segments begins where they do. -/
theorem Follow.begins {a b : ℚ} {segments : List Segment} (h : Follow a segments b) (hne : segments ≠ [])
    (hlt : ∀ s ∈ segments, s.start.value < s.stop.value) :
    ∃ s ∈ segments, s.start.value = a ∧ a < s.stop.value := by
  obtain ⟨s, rest, rfl⟩ := List.exists_cons_of_ne_nil hne
  have hstart := h.2.2.1
  exact ⟨s, List.mem_cons_self, hstart, hstart ▸ hlt s List.mem_cons_self⟩

theorem follow_single {a b : Number} (ha : a.isTime) (hb : b.isTime) (h : a ≤ b) (state : Radio.State) :
    Follow a.value [⟨a, b, state⟩] b.value := by
  have ha := Number.isFinite_of_isTime ha
  have hb := Number.isFinite_of_isTime hb
  exact ⟨ha, hb, rfl, (Number.le_iff ha hb).1 h, rfl⟩

/-! ### The segments of a report, where sums may be infinite -/

/-- The segments of the radio's own activities follow each other up to now at most, and show activities. -/
theorem follow_ownSegments {now : Number} (hnow : now.isTime) (pending : List Activity) (t : Number)
    (ht : t.isTime) (hle : t ≤ now) :
    Follow t.value (ownSegments now pending t) (reach t (ownSegments now pending t)).value ∧
      (reach t (ownSegments now pending t)).isTime ∧ reach t (ownSegments now pending t) ≤ now ∧
        ∀ s ∈ ownSegments now pending t, ∃ a ∈ pending, s.state = a.state := by
  fun_induction ownSegments now pending t with
  | case1 pending t hlt a others hfirst stop ih =>
    obtain ⟨before, after, rfl, rfl, hrun, -⟩ := firstRunning?_some hfirst
    rw [Interval.isRunning, Bool.and_eq_true, decide_eq_true_iff] at hrun
    have hrun := Number.le_of_lt hrun.1
    have hstop : t ≤ stop := Number.le_minimum hrun hle
    have hstop' : stop ≤ now :=
      Number.minimum_le_right (Number.le_iff_rank.1 hrun).2.1 (Number.not_isNaN_of_isTime hnow)
    have htime : stop.isTime :=
      Number.isTime_of_le (Number.le_trans (Number.zero_le_of_isTime ht) hstop) hstop' hnow
    obtain ⟨hfollow, hreach, hreach', hstate⟩ := ih htime hstop'
    rw [reach_cons]
    refine ⟨(follow_single ht htime hstop a.state).append hfollow, hreach, hreach', ?_⟩
    rw [List.forall_mem_cons]
    exact ⟨⟨a, by simp, rfl⟩, fun s hs => (hstate s hs).imp fun b hb => ⟨by simp at hb ⊢; tauto, hb.2⟩⟩
  | case2 => exact ⟨rfl, ht, hle, by simp⟩
  | case3 => exact ⟨rfl, ht, hle, by simp⟩

/-- The segments of a band follow each other up to now, and show the band. -/
theorem follow_band {entry : Option BusyEntry} {t now : Number} (ht : t.isTime) (hnow : now.isTime)
    (hle : t ≤ now) (he : ∀ e ∈ entry, e.busyStart.isTime ∧ e.busyStart ≤ e.busyEnd) :
    Follow t.value (bandSegments entry t now) now.value ∧
      ∀ s ∈ bandSegments entry t now, s.IsOfBand := by
  have hclear : Follow t.value [⟨t, now, .idle⟩] now.value ∧
      ∀ s ∈ [(⟨t, now, .idle⟩ : Segment)], s.IsOfBand :=
    ⟨follow_single ht hnow hle _, by simp [Segment.IsOfBand]⟩
  cases entry with
  | none => exact hclear
  | some e =>
    obtain ⟨hstart, hle'⟩ := he e rfl
    rw [bandSegments]
    split
    · next hbusy =>
      rw [Bool.and_eq_true, decide_eq_true_iff, decide_eq_true_iff] at hbusy
      obtain ⟨hend, hbegin⟩ := hbusy
      have hend := Number.le_of_lt hend
      -- the busy period begins at `b`, which is `t` or its own beginning, and ends at `c`
      obtain ⟨b, hb, htb, hbtime, hbend, hbnow⟩ : ∃ b, t.maximum e.busyStart = b ∧ t ≤ b ∧ b.isTime ∧
          b ≤ e.busyEnd ∧ b ≤ now := by
        have hft := Number.isFinite_of_isTime ht
        have hfs := Number.isFinite_of_isTime hstart
        rcases Number.maximum_eq hft hfs with ⟨hmax, -⟩ | ⟨hmax, hm⟩
        · exact ⟨t, hmax, Number.le_rfl_of_isTime ht, ht, hend, hle⟩
        · exact ⟨e.busyStart, hmax, (Number.le_iff hft hfs).2 hm, hstart, hle', Number.le_of_lt hbegin⟩
      have hnan := (Number.le_iff_rank.1 hbend).2.1
      have hbc : b ≤ e.busyEnd.minimum now := Number.le_minimum hbend hbnow
      have hcnow := Number.minimum_le_right hnan (Number.not_isNaN_of_isTime hnow)
      have hctime := Number.isTime_of_le (Number.le_trans (Number.zero_le_of_isTime hbtime) hbc) hcnow hnow
      dsimp only
      rw [hb]
      refine ⟨(follow_single ht hbtime htb _).append ((follow_single hbtime hctime hbc _).append
        (follow_single hctime hnow hcnow _)), ?_⟩
      simp [Segment.IsOfBand]
    · exact hclear

end Report

/-! ### The two parts of a report -/

namespace Transition
open Report

variable {config : Config} {core : Core} {x : Transition}

/-- The entry of a band is dated. -/
theorem dated_entryOn (h : core.Dated) (on : Sensing) :
    ∀ e ∈ core.entryOn config on, e.busyStart.isTime ∧ e.busyStart ≤ e.busyEnd := by
  intro e he
  rw [Core.entryOn, BusyTable.get] at he
  cases hs : Threshold.step (on.thresholdIn config) core.table.resolution with
  | error r =>
    rw [hs] at he
    cases he
  | ok step =>
    rw [hs] at he
    exact h e (BusyTable.mem_of_find? he)

/-- A report in its two parts: `own` is settled segment by segment, `band` all at once, if it is there. -/
structure Reporting (config : Config) (core : Core) (x : Transition) (own band : List Segment) : Prop where
  segments : x.segments config core = own ++ band
  own_follow : Follow core.cursor.value own (reach core.cursor own).value
  own_state : ∀ s ∈ own, ¬s.IsOfBand
  band_state : ∀ s ∈ band, s.IsOfBand
  reports : x.reportDeeds config core = tellProgress own ∧ band = [] ∨
    x.reportDeeds config core =
      tellProgress own ++ (band.flatMap tellSegment ++ [.change (.reported x.time)]) ∧
        Follow (reach core.cursor own).value band x.time.value

/-- The radio's own activities are no states of a band. -/
theorem own_of_activities {r : Record} {s : Segment} (h : ∃ a ∈ r.activities, s.state = a.state) :
    ¬s.IsOfBand := by
  obtain ⟨a, ha, hs⟩ := h
  rw [Segment.IsOfBand, hs]
  simp only [Record.activities, List.mem_cons, List.not_mem_nil, or_false] at ha
  rcases ha with rfl | rfl | rfl <;> simp

/-- Each permitted transition reports in this way. -/
theorem reporting (hp : x.Permitted config core) (h : core.Coherent) (hd : core.Dated) :
    ∃ own band, Reporting config core x own band := by
  have hnow := hp.time
  have hle := (h.le_of_order hnow hp.order).2
  obtain ⟨hown, hreach, hreach', hstate⟩ :=
    follow_ownSegments hnow core.record.activities core.cursor h.cursor hle
  have hownOnly : x.segments config core = core.ownSegments x.time →
      x.reportDeeds config core = tellProgress (core.ownSegments x.time) →
        ∃ own band, Reporting config core x own band := fun hsegs hds =>
    ⟨core.ownSegments x.time, [], by rw [hsegs, List.append_nil], hown,
      fun s hs => own_of_activities (hstate s hs), by simp, Or.inl ⟨hds, rfl⟩⟩
  have hnone : x.segments config core = [] → x.reportDeeds config core = [] →
      ∃ own band, Reporting config core x own band := fun hsegs hds =>
    ⟨[], [], hsegs, rfl, by simp, by simp, Or.inl ⟨hds, rfl⟩⟩
  have huntil : ∀ on : Sensing, x.segments config core = core.segmentsUntil (core.entryOn config on) x.time →
      x.reportDeeds config core = core.reportDeeds (core.entryOn config on) x.time →
        ∃ own band, Reporting config core x own band := by
    intro on hsegs hds
    rw [Core.segmentsUntil] at hsegs
    rw [Core.reportDeeds] at hds
    by_cases hlate : x.time ≤ core.cursor
    · rw [if_pos hlate] at hsegs hds
      exact hnone hsegs hds
    · rw [if_neg hlate] at hsegs hds
      cases hpower : core.record.powerState? with
      | some state =>
        rw [hpower] at hsegs hds
        refine ⟨[⟨core.cursor, x.time, state⟩], [], hsegs, follow_single h.cursor hnow hle _, ?_, by simp,
          Or.inl ⟨?_, rfl⟩⟩
        · rw [List.forall_mem_singleton, Segment.IsOfBand]
          rw [Record.powerState?] at hpower
          split_ifs at hpower <;> obtain rfl := Option.some.inj hpower <;> simp
        · rw [hds, tellProgress_cons]
          rfl
      | none =>
        rw [hpower] at hsegs hds
        obtain ⟨hband, hbandState⟩ := follow_band hreach hnow hreach' (dated_entryOn hd on)
        exact ⟨_, _, hsegs, hown, fun s hs => own_of_activities (hstate s hs), hbandState,
          Or.inr ⟨hds, hband⟩⟩
  cases x with
  | transmit | receive | retune | fallAsleep | wakeUp | powerOff | powerOn | flush => exact huntil _ rfl rfl
  | detectEnergy now duration on isPrimary =>
    cases isPrimary with
    | true => exact huntil on rfl rfl
    | false => exact hnone rfl rfl
  | completeReception | loseReception | abortReception => exact hownOnly rfl rfl
  | continueReception => exact hnone rfl rfl

/-! ### The ledger -/

/-- A beginning of what a report does for the radio's own activities: some of these are settled, and one
more may have been told. -/
theorem prefix_tellProgress {steps : List Step} {segments : List Segment}
    (h : steps <+: tellProgress segments) :
    ∃ done rest, segments = done ++ rest ∧ (steps = tellProgress done ∨
      ∃ s more, rest = s :: more ∧ s.isEmpty = false ∧
        steps = tellProgress done ++ [telling s]) := by
  induction segments generalizing steps with
  | nil => exact ⟨[], [], rfl, Or.inl (List.prefix_nil.1 h)⟩
  | cons s rest ih =>
    rw [tellProgress_cons] at h
    have hnone : steps = [] → ∃ done rest', s :: rest = done ++ rest' ∧ (steps = tellProgress done ∨
        ∃ u more, rest' = u :: more ∧ u.isEmpty = false ∧
          steps = tellProgress done ++ [telling u]) :=
      fun hnil => ⟨[], s :: rest, rfl, Or.inl hnil⟩
    have hfirst : steps = tellSegment s → ∃ done rest', s :: rest = done ++ rest' ∧
        (steps = tellProgress done ∨ ∃ u more, rest' = u :: more ∧ u.isEmpty = false ∧
          steps = tellProgress done ++ [telling u]) := by
      intro htold
      cases hempty : s.isEmpty with
      | true =>
        rw [tellSegment, if_pos hempty] at htold
        exact hnone htold
      | false =>
        rw [tellSegment, hempty, if_neg Bool.false_ne_true] at htold
        exact ⟨[], s :: rest, rfl, Or.inr ⟨s, rest, rfl, hempty, htold⟩⟩
    rcases prefix_append_cases h with hpre | ⟨more, rfl, hpre⟩
    · rw [tellSegment] at hpre
      split at hpre
      · exact hnone (List.prefix_nil.1 hpre)
      · next hempty =>
        rcases List.prefix_cons_iff.1 hpre with rfl | ⟨more, rfl, hmore⟩
        · exact hnone rfl
        · refine hfirst ?_
          rw [List.prefix_nil.1 hmore, tellSegment, if_neg hempty]
    · rcases List.prefix_cons_iff.1 hpre with rfl | ⟨more, rfl, hmore⟩
      · exact hfirst (List.append_nil _)
      · obtain ⟨done, rest', rfl, hdone⟩ := ih hmore
        refine ⟨s :: done, rest', rfl, ?_⟩
        rw [tellProgress_cons]
        rcases hdone with rfl | ⟨u, more, rfl, hu, rfl⟩
        · exact Or.inl rfl
        · exact Or.inr ⟨u, more, rfl, hu, by simp⟩

/-- What has been told of the segments of a transition after a beginning of its deeds: the settled ones
reach up to the cursor, and the pending ones go on from there. -/
structure Ledger (config : Config) (core : Core) (x : Transition) (steps : List Step)
    (settled pending : List Segment) : Prop where
  inOrder : settled ++ pending <+: timed (x.segments config core)
  told : stateChangesOf steps = (settled ++ pending).map Segment.told
  reaches : Follow core.cursor.value settled (coreAfter steps core).cursor.value
  goesOn : ∃ b, Follow (coreAfter steps core).cursor.value pending b
  ends : pending ≠ [] → EndsTelling steps
  /-- what is pending is settled next, or it is of a band and more of that is told before -/
  next : pending ≠ [] → (∃ t, steps ++ [.change (.reported t)] <+: x.deeds config core) ∨
    (∃ s : Segment, steps ++ [telling s] <+: x.deeds config core) ∧
      ∃ s ∈ pending, s.IsOfBand
  /-- a band is not left in the middle with nothing pending -/
  band : (∃ s : Segment, steps ++ [telling s] <+: x.deeds config core) →
    (∃ s ∈ settled ++ pending, s.IsOfBand) → pending ≠ []

/-- The steps that follow a report move no cursor. -/
theorem cursor_of_isPrefix_enactDeeds {steps : List Step} {before : Core}
    (h : steps <+: x.enactDeeds config before) (core : Core) :
    (coreAfter steps core).cursor = core.cursor := by
  have hall : ∀ t, .change (.reported t) ∉ x.enactDeeds config before := by
    intro t hmem
    have hsense : ∀ now duration on isPrimary,
        .change (.reported t) ∉ before.senseDeeds config now duration on isPrimary := by
      intro now duration on isPrimary hmem
      rcases Core.mem_senseDeeds hmem with ⟨entry, h⟩ | ⟨remaining, h⟩ <;> cases h
    cases x with
    | detectEnergy =>
      rcases List.mem_append.1 hmem with hmem | hmem
      · exact hsense _ _ _ _ hmem
      · cases List.mem_singleton.1 hmem
    | wakeUp | powerOn =>
      rcases List.mem_append.1 hmem with hmem | hmem
      · simp at hmem
      · split at hmem
        · exact hsense _ _ _ _ hmem
        · cases hmem
    | abortReception now failure => cases failure <;> simp [enactDeeds] at hmem
    | _ => simp [enactDeeds] at hmem
  have hnone : ∀ t, .change (.reported t) ∉ steps := fun t ht => hall t (h.subset ht)
  clear h
  induction steps generalizing core with
  | nil => rfl
  | cons step rest ih =>
    have hrest := ih (coreAfter [step] core) fun t ht => hnone t (List.mem_cons_of_mem _ ht)
    cases step with
    | change c =>
      cases c with
      | reported t => exact absurd List.mem_cons_self (hnone t)
      | _ => exact hrest
    | announce | log => exact hrest

/-- After its report a transition tells of no state change. -/
theorem stateChangesOf_enactDeeds (config : Config) (core : Core) (x : Transition) :
    stateChangesOf (x.enactDeeds config core) = [] := by
  have hsense : ∀ now duration on isPrimary,
      stateChangesOf (core.senseDeeds config now duration on isPrimary) = [] := by
    intro now duration on isPrimary
    rw [Core.senseDeeds]
    split
    · rw [stateChangesOf_append]
      split <;> split <;> rfl
    · rfl
  have hup : ∀ (c : Change) method now duration on isPrimary,
      stateChangesOf ([.change c, .announce [.listeners ⟨method, []⟩]] ++
        if 0 < duration then core.senseDeeds config now duration on isPrimary else []) = [] := by
    intro c method now duration on isPrimary
    rw [stateChangesOf_append]
    split
    · rw [hsense]
      rfl
    · rfl
  have hpair : ∀ c ns, ns.filterMap Notice.stateChange? = [] →
      stateChangesOf [.change c, .announce ns] = [] := by
    intro c ns hns
    rw [← List.singleton_append, stateChangesOf_append, stateChangesOf_announce, hns]
    rfl
  cases x with
  | transmit =>
    refine hpair _ _ ?_
    rw [List.filterMap_append, Planning.stateChange?_sendingNotices]
    rfl
  | completeReception =>
    refine hpair _ _ ?_
    rw [List.filterMap_append, List.filterMap_append, Planning.stateChange?_receivedNotices]
    rfl
  | loseReception =>
    refine hpair _ _ ?_
    rw [List.filterMap_append, List.filterMap_append, Planning.stateChange?_lostNotices]
    rfl
  | receive | retune | fallAsleep | powerOff => exact hpair _ _ rfl
  | abortReception now failure => cases failure <;> rfl
  | detectEnergy =>
    rw [enactDeeds, stateChangesOf_append, hsense]
    rfl
  | wakeUp => exact hup ..
  | powerOn => exact hup ..
  | continueReception | flush => rfl

namespace Reporting

variable {own band : List Segment} {steps : List Step}

/-- The report begins with the radio's own activities. -/
theorem own_isPrefix (h : Reporting config core x own band) :
    tellProgress own <+: x.deeds config core := by
  rw [deeds]
  rcases h.reports with ⟨hds, -⟩ | ⟨hds, -⟩ <;> rw [hds]
  · exact List.prefix_append _ _
  · exact (List.prefix_append _ _).trans (List.prefix_append _ _)

/-- Among the radio's own activities, one at most is pending. -/
theorem ledger_own (h : Reporting config core x own band) (hpre : steps <+: tellProgress own) :
    ∃ settled pending, Ledger config core x steps settled pending := by
  obtain ⟨done, rest, rfl, hsteps⟩ := prefix_tellProgress hpre
  have htimed : timed (x.segments config core) = timed done ++ (timed rest ++ timed band) := by
    rw [h.segments, timed_append, timed_append, List.append_assoc]
  have hnone : ¬∃ s ∈ timed done, s.IsOfBand := by
    rintro ⟨s, hs, hband⟩
    exact h.own_state s (List.mem_append_left _ (List.mem_filter.1 hs).1) hband
  obtain ⟨c, hdone, hrest⟩ := h.own_follow.split
  have hreach := hdone.reach
  have hcursor : (coreAfter (tellProgress done) core).cursor.value = c := by
    rw [coreAfter_tellProgress]
    exact hreach
  rcases hsteps with rfl | ⟨s, more, rfl, hs, rfl⟩
  · refine ⟨timed done, [], ?_, ?_, ?_, ⟨_, rfl⟩, fun hne => absurd rfl hne, fun hne => absurd rfl hne, ?_⟩
    · rw [List.append_nil, htimed]
      exact List.prefix_append _ _
    · rw [List.append_nil, stateChangesOf_tellProgress]
    · rw [hcursor]
      exact hdone.timed
    · rw [List.append_nil]
      exact fun _ hband => absurd hband hnone
  · have hcursor' : (coreAfter (tellProgress done ++ [telling s]) core).cursor.value = c := by
      rw [coreAfter_append]
      exact hcursor
    refine ⟨timed done, [s], ?_, ?_, ?_, ?_, fun _ => ⟨_, s, rfl⟩, fun _ => Or.inl ⟨s.stop, ?_⟩,
      fun _ _ => List.cons_ne_nil _ _⟩
    · rw [htimed, List.prefix_append_right_inj, timed, List.filter_cons, hs]
      exact ⟨timed more ++ timed band, rfl⟩
    · rw [stateChangesOf_append, stateChangesOf_tellProgress, List.map_append]
      rfl
    · rw [hcursor']
      exact hdone.timed
    · rw [hcursor']
      obtain ⟨hstart, hstop, hc, hle, -⟩ := hrest
      exact ⟨_, hstart, hstop, hc, hle, rfl⟩
    · refine List.IsPrefix.trans ?_ h.own_isPrefix
      refine ⟨tellProgress more, ?_⟩
      rw [tellProgress, tellProgress, tellProgress, List.flatMap_append, List.flatMap_cons, tellSegment, hs]
      simp [telling]

/-- Whatever has been told of a band is pending until all of it is. -/
theorem ledger_band (h : Reporting config core x own band)
    (hds : x.reportDeeds config core =
      tellProgress own ++ (band.flatMap tellSegment ++ [.change (.reported x.time)]))
    (hfollow : Follow (reach core.cursor own).value band x.time.value) {told rest : List Segment}
    (htold : timed band = told ++ rest) :
    Ledger config core x (tellProgress own ++ told.map telling)
      (timed own) told := by
  have hall : ∀ s ∈ told, s.IsOfBand := fun s hs => by
    refine h.band_state s (List.mem_filter.1 (?_ : s ∈ timed band)).1
    rw [htold]
    exact List.mem_append_left _ hs
  have hdeeds : x.deeds config core = tellProgress own ++ (told.map telling) ++
      ((rest.map telling) ++
        .change (.reported x.time) :: x.enactDeeds config core) := by
    rw [deeds, hds, tellSegments_eq, htold]
    simp
  have hcursor : (coreAfter (tellProgress own ++ told.map telling)
      core).cursor.value = (reach core.cursor own).value := by
    rw [coreAfter_append, coreAfter_tell, coreAfter_tellProgress]
  refine ⟨?_, ?_, ?_, ?_, fun hne => ?_, fun hne => ?_, ?_⟩
  · rw [h.segments, timed_append, htold, ← List.append_assoc]
    exact List.prefix_append _ _
  · rw [stateChangesOf_append, stateChangesOf_tellProgress, stateChangesOf_tell, List.map_append]
  · rw [hcursor]
    exact h.own_follow.timed
  · have := hfollow.timed
    rw [htold] at this
    rw [hcursor]
    exact this.split.imp fun _ h => h.1
  · obtain ⟨init, s, rfl⟩ := (List.eq_nil_or_concat told).resolve_left hne
    exact ⟨tellProgress own ++ init.map telling, s, by simp⟩
  · cases rest with
    | nil => exact Or.inl ⟨x.time, x.enactDeeds config core, by rw [hdeeds]; simp⟩
    | cons s rest =>
      obtain ⟨u, hu⟩ := List.exists_mem_of_ne_nil told hne
      refine Or.inr ⟨⟨s, rest.map telling ++ .change (.reported x.time) :: x.enactDeeds config core, ?_⟩,
        u, hu, hall u hu⟩
      rw [hdeeds]
      simp
  · rintro - ⟨s, hs, hband⟩
    rcases List.mem_append.1 hs with hs | hs
    · exact absurd hband (h.own_state s (List.mem_filter.1 hs).1)
    · exact List.ne_nil_of_mem hs

/-- After a report, nothing is pending. -/
theorem ledger_reported (h : Reporting config core x own band) {more : List Step}
    (hmore : more <+: x.enactDeeds config core) :
    Ledger config core x (x.reportDeeds config core ++ more) (timed (x.segments config core)) [] := by
  have hquiet : ∀ steps, steps <+: x.enactDeeds config core → stateChangesOf steps = [] := by
    rintro steps ⟨rest, hrest⟩
    have := stateChangesOf_enactDeeds config core x
    rw [← hrest, stateChangesOf_append, List.append_eq_nil_iff] at this
    exact this.1
  have hreport : stateChangesOf (x.reportDeeds config core) =
        (timed (x.segments config core)).map Segment.told ∧
      Follow core.cursor.value (timed (x.segments config core))
        (coreAfter (x.reportDeeds config core) core).cursor.value := by
    rw [h.segments]
    rcases h.reports with ⟨hds, rfl⟩ | ⟨hds, hfollow⟩ <;> rw [hds]
    · rw [List.append_nil, stateChangesOf_tellProgress, coreAfter_tellProgress]
      exact ⟨rfl, h.own_follow.timed⟩
    · rw [stateChangesOf_append, stateChangesOf_append, stateChangesOf_tellProgress,
        tellSegments_eq, stateChangesOf_tell, coreAfter_append, coreAfter_append, timed_append,
        List.map_append]
      exact ⟨by rw [show stateChangesOf [.change (.reported x.time)] = [] from rfl, List.append_nil],
        h.own_follow.timed.append hfollow.timed⟩
  refine ⟨?_, ?_, ?_, ⟨_, rfl⟩, fun hne => absurd rfl hne, fun hne => absurd rfl hne, ?_⟩
  · rw [List.append_nil]
  · rw [List.append_nil, stateChangesOf_append, hreport.1, hquiet more hmore, List.append_nil]
  · rw [coreAfter_append, cursor_of_isPrefix_enactDeeds hmore]
    exact hreport.2
  · rintro ⟨s, hpre⟩ -
    rw [deeds, List.append_assoc, List.prefix_append_right_inj] at hpre
    have := hquiet _ hpre
    rw [stateChangesOf_append, List.append_eq_nil_iff] at this
    cases this.2

end Reporting

/-- There is a ledger after each beginning of the deeds of a permitted transition. -/
theorem ledger (hp : x.Permitted config core) (h : core.Coherent) (hd : core.Dated) {steps : List Step}
    (hpre : steps <+: x.deeds config core) :
    ∃ settled pending, Ledger config core x steps settled pending := by
  obtain ⟨own, band, hr⟩ := reporting hp h hd
  rcases prefix_append_cases hpre with hpre | ⟨more, rfl, hmore⟩
  · rcases hr.reports with ⟨hds, -⟩ | ⟨hds, hfollow⟩
    · rw [hds] at hpre
      exact hr.ledger_own hpre
    · have hreport := hds ▸ hpre
      rcases prefix_append_cases hreport with hpre | ⟨more, rfl, hmore⟩
      · exact hr.ledger_own hpre
      · rcases prefix_append_cases hmore with hmore | ⟨last, rfl, hlast⟩
        · rw [tellSegments_eq] at hmore
          obtain ⟨rest, hrest⟩ := hmore
          obtain ⟨told, rest, htold, rfl, -⟩ := List.map_eq_append_iff.1 hrest.symm
          exact ⟨_, _, hr.ledger_band hds hfollow htold⟩
        · rcases List.prefix_cons_iff.1 hlast with rfl | ⟨none, rfl, hnone⟩
          · rw [List.append_nil, tellSegments_eq]
            exact ⟨_, _, hr.ledger_band hds hfollow (List.append_nil _).symm⟩
          · rw [List.prefix_nil.1 hnone, ← hds, ← List.append_nil (x.reportDeeds config core)]
            exact ⟨_, _, hr.ledger_reported List.nil_prefix⟩
  · exact ⟨_, _, hr.ledger_reported hmore⟩

end Transition

end RadioOccupancy
