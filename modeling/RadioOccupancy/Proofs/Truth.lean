import RadioOccupancy.Proofs.Trace

/-!
The trace of state changes tells the truth.

             cursor    τ        now
    --|--------|-------|---------|
      last accepted call by τ    the call that reports

A report is made afterwards, from what is remembered at the time of the call. It shows what the radio
showed at `τ`, because what came between `τ` and the call did not move the cursor: it was the
continuation of a reception, or energy on a secondary band (`History.agrees_stoodAt`). That the one busy
period of a key is enough for it needs the period to begin at the cursor at the latest, and this is where
energy on a secondary band would do harm (`History.busyStart_le`).
-/

namespace RadioOccupancy

/-- What a tracker remembered at an instant: what the last of the accepted calls left that had come by
then. -/
def stoodAt (start : Core) (calls : List Call) (τ : ℚ) : Core :=
  ((calls.filter fun c => c.Accepted ∧ c.transition.time.value ≤ τ).getLast?.map
    Call.coreAfter).getD start

/-- The state on a band as it was derived at an instant. -/
def stateThen (start : Core) (calls : List Call) (band : Band) (threshold τ : Number) :
    Except Refusal Radio.State :=
  let stood := stoodAt start calls τ.value
  stood.record.stateOn stood.table band threshold τ

/-- A transition that detects energy on the key of a request, but not on the primary band. -/
def Transition.IsSecondaryOn (config : Config) (on : Sensing) : Transition → Prop
  | .detectEnergy _ _ other false =>
    (other.band.sameKey on.band && (other.stepIn config).same (on.stepIn config)) = true
  | _ => False

section StoodAt

variable {start : Core} {calls : List Call} {τ : ℚ}

theorem stoodAt_snoc (start : Core) (calls : List Call) (c : Call) (τ : ℚ) :
    stoodAt start (calls ++ [c]) τ =
      if c.Accepted ∧ c.transition.time.value ≤ τ then c.coreAfter else stoodAt start calls τ := by
  rw [stoodAt, List.filter_append]
  split
  · next h => simp [h]
  · next h => simp [h, stoodAt]

/-- Calls that come later do not count. -/
theorem stoodAt_append {later : List Call}
    (h : ∀ c ∈ later, c.Accepted → τ < c.transition.time.value) :
    stoodAt start (calls ++ later) τ = stoodAt start calls τ := by
  have hnone : later.filter (fun c => c.Accepted ∧ c.transition.time.value ≤ τ) = [] := by
    rw [List.filter_eq_nil_iff]
    intro c hc
    rw [decide_eq_true_iff, not_and, not_le]
    exact h c hc
  rw [stoodAt, List.filter_append, hnone, List.append_nil, stoodAt]

end StoodAt

/-! ### What a report shows -/

/-- Where the busy period has begun, the state of a band is busy until it ends. -/
theorem Report.state_of_begun {entry : Option BusyEntry} {t now τ : Number} {s : Segment}
    (he : ∀ e ∈ entry, e.Sound) (ht : t.isFinite) (hnow : now.isFinite)
    (hs : s ∈ bandSegments entry t now) (hτ : τ.isFinite) (hstart : s.start.value ≤ τ.value)
    (hstop : τ.value < s.stop.value) (hbegun : ∀ e ∈ entry, e.busyStart.value ≤ τ.value) :
    s.state = if entry.any fun e => τ < e.busyEnd then .ccaBusy else .idle := by
  have hany : (entry.any fun e => τ < e.busyEnd) = true ↔ ∃ e ∈ entry, τ.value < e.busyEnd.value := by
    rw [Option.any_eq_true]
    refine exists_congr fun e => and_congr_right fun hmem => ?_
    rw [decide_eq_true_iff, Number.lt_iff hτ (he e hmem).finite_end]
  rcases state_bandSegments he ht hnow hs hstart hstop with ⟨hstate, e, hmem, -, hend⟩ | ⟨hstate, hclear⟩
  · rw [hstate, if_pos (hany.2 ⟨e, hmem, hend⟩)]
  · rw [hstate, if_neg]
    rw [hany]
    rintro ⟨e, hmem, hend⟩
    rcases hclear e hmem with h | h
    · exact not_lt.2 (hbegun e hmem) h
    · exact not_lt.2 h hend

namespace Core.Sound

variable {core : Core} {now τ : Number} {s : Segment}

/-- A segment of the radio's own activities shows the state of the radio by itself. -/
theorem ownState?_ownSegments (h : core.Sound) (hnow : now.isFinite)
    (hpower : core.record.powerState? = none) (hs : s ∈ core.ownSegments now) (hτ : τ.isFinite)
    (hstart : s.start.value ≤ τ.value) (hstop : τ.value < s.stop.value) :
    core.record.ownState? τ = some s.state := by
  rw [Record.ownState?, hpower]
  exact (h.runs hnow).state h.finite_stops hs hτ hstart hstop

/-- Any segment shows the state of the radio by itself, or else that of the band. -/
theorem ownState?_segmentsUntil (h : core.Sound) (hnow : now.isFinite)
    (hle : core.cursor.value ≤ now.value) {entry : Option BusyEntry} (he : ∀ e ∈ entry, e.Sound)
    (hbegun : ∀ e ∈ entry, e.busyStart.value ≤ core.cursor.value)
    (hs : s ∈ core.segmentsUntil entry now) (hτ : τ.isFinite) (hstart : s.start.value ≤ τ.value)
    (hstop : τ.value < s.stop.value) :
    core.record.ownState? τ = some s.state ∨
      core.record.ownState? τ = none ∧
        s.state = if entry.any fun e => τ < e.busyEnd then .ccaBusy else .idle := by
  rw [Core.segmentsUntil] at hs
  split at hs
  · simp at hs
  · cases hp : core.record.powerState? with
    | some state =>
      rw [hp] at hs
      obtain rfl := List.mem_singleton.1 hs
      exact Or.inl (by rw [Record.ownState?, hp]; rfl)
    | none =>
      rw [hp] at hs
      rcases List.mem_append.1 hs with hs | hs
      · exact Or.inl (h.ownState?_ownSegments hnow hp hs hτ hstart hstop)
      · have hreach := h.finite_ownReach hnow
        obtain ⟨-, -, hafter, hbefore⟩ :=
          (Report.follow_bandSegments he hreach hnow (h.ownReach_le hnow hle)).mem hs
        have hτnow : τ.value < now.value := hstop.trans_le hbefore
        have hreachτ : (core.ownReach now).value ≤ τ.value := hafter.trans hstart
        refine Or.inr ⟨?_, ?_⟩
        · -- the radio's own activities have ended where they do not reach now
          rcases (h.runs hnow).reach_or_ended with hnow' | hended
          · exact absurd hτnow (not_lt.2 (hnow'.trans hreachτ))
          · rw [Record.ownState?, hp, Record.activity?, List.find?_eq_none.2]
            · rfl
            · intro a ha
              rw [decide_eq_true_iff, Number.lt_iff hτ (h.finite_stops a ha), not_lt]
              exact (hended a ha).trans hreachτ
        · have hcursor : core.cursor.value ≤ τ.value := (h.runs hnow).le_reach.trans hreachτ
          exact Report.state_of_begun he hreach hnow hs hτ hstart hstop fun e he =>
            (hbegun e he).trans hcursor

end Core.Sound

/-! ### The busy period of a key -/

/-- What energy does to the busy table depends on the table alone. -/
theorem Core.table_sensed_congr {config : Config} {a b : Core} (h : a.table = b.table)
    (now duration : Number) (on : Sensing) :
    (a.sensed config now duration on).table = (b.sensed config now duration on).table := by
  unfold Core.sensed
  rw [h]
  split
  · rfl
  · exact h

/-- Energy changes at most the entry of its own key. -/
theorem Core.find?_sensed {config : Config} {core : Core}
    (hres : core.table.resolution = config.thresholdResolution) (now duration : Number) (on : Sensing)
    (band : Band) (step : Number) :
    (core.sensed config now duration on).table.find? band step = core.table.find? band step ∨
      (on.band.sameKey band && (on.stepIn config).same step) = true ∧
        (core.sensed config now duration on).table.find? band step =
          some (BusyTable.detectionBeside (core.table.find? band step) on.band (on.stepIn config) now
            duration).entry := by
  unfold Core.sensed
  split
  · next s hstep =>
    obtain rfl : s = on.stepIn config := by
      rw [(Threshold.of_step hstep).2, hres, Sensing.stepIn]
    rw [BusyTable.find?_detected]
    split
    · next hkey => exact Or.inr ⟨hkey, by rw [BusyTable.find?_congr core.table hkey]⟩
    · exact Or.inl rfl
  · exact Or.inl rfl

namespace Transition

variable {config : Config} {core : Core} {x : Transition} {on : Sensing}

/-- A transition leaves the busy table, or does to it what the energy does that it records. -/
theorem table_after (config : Config) (core : Core) (x : Transition) :
    (x.after config core).table = core.table ∨
      ∃ other ∈ x.recordsOn?, ∃ duration,
        (x.after config core).table = (core.sensed config x.time duration other).table := by
  cases x with
  | detectEnergy now duration other =>
    refine Or.inr ⟨other, rfl, duration, ?_⟩
    change (Core.sensed ..).table = _
    exact Core.table_sensed_congr (by rfl) ..
  | wakeUp now duration other | powerOn now duration other =>
    rw [after, enacted]
    by_cases hpos : 0 < duration
    · rw [if_pos hpos]
      exact Or.inr ⟨other, if_pos hpos, duration, Core.table_sensed_congr (by rfl) ..⟩
    · rw [if_neg hpos]
      exact Or.inl rfl
  | _ => exact Or.inl rfl

/-- What records energy on a key reports first, unless the band is a secondary one. -/
theorem reports_of_recordsOn? {other : Sensing} (hx : other ∈ x.recordsOn?)
    (hkey : (other.band.sameKey on.band && (other.stepIn config).same (on.stepIn config)) = true)
    (hprimary : ¬x.IsSecondaryOn config on) : x.Reports := by
  cases x with
  | detectEnergy now duration other' isPrimary =>
    obtain rfl := Option.mem_some_iff.1 hx
    cases isPrimary with
    | true => rfl
    | false => exact absurd hkey hprimary
  | continueReception => cases hx
  | _ => rfl

/-- The busy period of a key has begun by the cursor, unless energy was detected on a secondary band. -/
theorem busyStart_after (hs : core.Sound) (hx : x.Permitted config core)
    (hres : core.table.resolution = config.thresholdResolution) (hprimary : ¬x.IsSecondaryOn config on)
    (h : ∀ e ∈ core.table.find? on.band (on.stepIn config), e.busyStart.value ≤ core.cursor.value) :
    ∀ e ∈ (x.after config core).table.find? on.band (on.stepIn config),
      e.busyStart.value ≤ (x.after config core).cursor.value := by
  have hle := hs.cursor_le_cursorAfter hx
  have hold : ∀ e ∈ core.table.find? on.band (on.stepIn config),
      e.busyStart.value ≤ (x.cursorAfter core).value := fun e he => (h e he).trans hle
  rw [cursor_after]
  rcases table_after config core x with htable | ⟨other, hother, duration, htable⟩ <;> rw [htable]
  · exact hold
  · rcases Core.find?_sensed hres x.time duration other on.band (on.stepIn config) with
      hsame | ⟨hkey, hfound⟩
    · rw [hsame]
      exact hold
    · rw [hfound]
      rintro e ⟨⟩
      rcases BusyTable.busyStart_beside (core.table.find? on.band (on.stepIn config)) other.band
        (other.stepIn config) x.time duration with heq | ⟨e, he, heq⟩ <;> rw [heq]
      · rw [hs.cursorAfter_value hx, if_pos (reports_of_recordsOn? hother hkey hprimary)]
      · exact hold e he

end Transition

/-! ### What stays until the next report -/

/-- The same is remembered about the radio itself, and about the keys of requests. -/
structure Core.Agrees (config : Config) (on : Sensing → Prop) (a b : Core) : Prop where
  own : ∀ t, a.record.ownState? t = b.record.ownState? t
  resolution : a.table.resolution = b.table.resolution
  entry : ∀ s, on s → a.table.find? s.band (s.stepIn config) = b.table.find? s.band (s.stepIn config)

namespace Core.Agrees

variable {config : Config} {on : Sensing → Prop} {a b c : Core}

theorem refl (config : Config) (on : Sensing → Prop) (a : Core) : a.Agrees config on a :=
  ⟨fun _ => rfl, rfl, fun _ _ => rfl⟩

theorem trans (h : a.Agrees config on b) (h' : b.Agrees config on c) : a.Agrees config on c :=
  ⟨fun t => (h.own t).trans (h'.own t), h.resolution.trans h'.resolution,
    fun s hs => (h.entry s hs).trans (h'.entry s hs)⟩

/-- The same state is derived. -/
theorem stateOn (h : a.Agrees config on b) (hb : b.Sound)
    (hres : b.table.resolution = config.thresholdResolution) {s : Sensing} (hs : on s)
    (hthr : (s.thresholdIn config).isFinite) (τ : Number) :
    a.record.stateOn a.table s.band (s.thresholdIn config) τ =
      b.record.stateOn b.table s.band (s.thresholdIn config) τ := by
  have hget : a.table.get s.band (s.thresholdIn config) = b.table.get s.band (s.thresholdIn config) := by
    rw [BusyTable.get, BusyTable.get, h.resolution, Sensing.step_eq hb.resolution hres hthr]
    exact congrArg Except.ok (h.entry s hs)
  rw [Record.stateOn, Record.stateOn, h.own, BusyTable.isBusyAt, BusyTable.isBusyAt, hget]

end Core.Agrees

/-- Nothing that matters changes in a transition that does not report. -/
theorem Transition.agrees_after {config : Config} {core : Core} {x : Transition} {on : Sensing → Prop}
    (hres : core.table.resolution = config.thresholdResolution) (hr : ¬x.Reports)
    (hprimary : ∀ s, on s → ¬x.IsSecondaryOn config s) :
    core.Agrees config on (x.after config core) where
  own t := by
    cases x with
    | continueReception => rfl
    | detectEnergy now duration other =>
      change _ = Record.ownState? { (Core.sensed ..).record with lastChange := now } t
      rw [Core.record_sensed]
      rfl
    | _ => exact absurd rfl hr
  resolution := (resolution_after config core x).symm
  entry s hs := by
    rcases table_after config core x with htable | ⟨other, hother, duration, htable⟩ <;> rw [htable]
    rcases Core.find?_sensed hres x.time duration other s.band (s.stepIn config) with hsame | ⟨hkey, -⟩
    · exact hsame.symm
    · exact absurd (reports_of_recordsOn? hother hkey (hprimary s hs)) hr

namespace History

variable {config : Config} {start core : Core} {calls : List Call}

/-- The busy period of a key has begun by the cursor, if energy on its band was always primary. -/
theorem busyStart_le (h : History config start calls core) (hstart : start.Sound)
    (hthr : ∀ c ∈ calls, c.transition.HasFiniteThreshold config)
    (hends : ∀ c ∈ calls, c.transition.EndsLater)
    (hres : start.table.resolution = config.thresholdResolution) {on : Sensing}
    (hprimary : ∀ c ∈ calls, ¬c.transition.IsSecondaryOn config on)
    (hbegun : ∀ e ∈ start.table.find? on.band (on.stepIn config),
      e.busyStart.value ≤ start.cursor.value) :
    ∀ e ∈ core.table.find? on.band (on.stepIn config), e.busyStart.value ≤ core.cursor.value := by
  refine (h.kept (P := fun core => core.table.resolution = config.thresholdResolution ∧
    ∀ e ∈ core.table.find? on.band (on.stepIn config), e.busyStart.value ≤ core.cursor.value)
    hstart hthr hends ⟨hres, hbegun⟩ ?_).2
  rintro c hc hs hp ⟨hres, hbegun⟩
  exact ⟨(Transition.resolution_after ..).trans hres,
    Transition.busyStart_after hs hp hres (hprimary c hc) hbegun⟩

/-- From the cursor on, nothing that matters has changed since an instant. -/
theorem agrees_stoodAt (h : History config start calls core) (hstart : start.Sound)
    (hthr : ∀ c ∈ calls, c.transition.HasFiniteThreshold config)
    (hends : ∀ c ∈ calls, c.transition.EndsLater)
    (hres : start.table.resolution = config.thresholdResolution) {on : Sensing → Prop}
    (hprimary : ∀ s, on s → ∀ c ∈ calls, ¬c.transition.IsSecondaryOn config s) {τ : ℚ}
    (hτ : core.cursor.value ≤ τ) : (stoodAt start calls τ).Agrees config on core := by
  refine h.invariant (Q := fun calls core => core.cursor.value ≤ τ →
    (stoodAt start calls τ).Agrees config on core) hstart hthr hends
    (fun _ => Core.Agrees.refl config on start) ?_ hτ
  intro before c hpre hfits hbefore ih hcursor
  rw [stoodAt_snoc]
  split
  · exact Core.Agrees.refl config on _
  · next hlate =>
    by_cases ha : c.Accepted
    · obtain ⟨hp, hcore, -⟩ := hfits.of_accepted ha
      have hr : ¬c.transition.Reports := fun hr =>
        hlate ⟨ha, (hfits.cursor_after ha hr).symm.trans_le hcursor⟩
      rw [hcore, Transition.cursor_after, hfits.sound.cursorAfter_value hp, if_neg hr] at hcursor
      rw [hcore]
      exact (ih hcursor).trans (Transition.agrees_after (hbefore.resolution.trans hres) hr
        fun s hs => hprimary s hs c (hpre.subset (by simp)))
    · rw [(hfits.of_refused ha).1] at hcursor ⊢
      exact ih hcursor

end History

/-! ### What a call tells -/

/-- A transition with a band reports what is remembered of that. -/
theorem Transition.mem_segmentsUntil {config : Config} {core : Core} {x : Transition} {on : Sensing}
    {s : Segment} (hon : on ∈ x.sensing?) (hs : s ∈ x.segments config core) :
    s ∈ core.segmentsUntil (core.entryOn config on) x.time := by
  cases x with
  | detectEnergy now duration on isPrimary =>
    obtain rfl := Option.mem_some_iff.1 hon
    cases isPrimary with
    | true => exact hs
    | false => cases hs
  | continueReception | completeReception | loseReception | abortReception => cases hon
  | _ =>
    obtain rfl := Option.mem_some_iff.1 hon
    exact hs

/-- What is told of segments comes from one in which time passes. -/
theorem Report.mem_told {segments : List Segment} {start duration : Number} {state : Radio.State}
    (h : (start, duration, state) ∈ told segments) :
    ∃ s ∈ segments, s.isEmpty = false ∧ s.start = start ∧ s.stop - s.start = duration ∧
      s.state = state := by
  obtain ⟨s, hs, heq⟩ := List.mem_map.1 h
  obtain ⟨hs, hempty⟩ := List.mem_filter.1 hs
  rw [Prod.mk.injEq, Prod.mk.injEq] at heq
  exact ⟨s, hs, by simpa using hempty, heq⟩

namespace Core.Sound

variable {config : Config} {core : Core} {x : Transition} {s : Segment} {τ : Number}

/-- What a permitted transition reports lies between the cursor and its time. -/
theorem mem_segments (h : core.Sound) (hx : x.Permitted config core)
    (hs : s ∈ x.segments config core) :
    x.Reports ∧ s.start.isFinite ∧ s.stop.isFinite ∧ core.cursor.value ≤ s.start.value ∧
      s.stop.value ≤ x.time.value := by
  have hr : x.Reports := by
    cases x with
    | continueReception => cases hs
    | detectEnergy now duration on isPrimary =>
      cases isPrimary with
      | true => rfl
      | false => cases hs
    | _ => rfl
  obtain ⟨hstart, hstop, hle, hle'⟩ := (h.follow_segments hx).mem hs
  rw [h.cursorAfter_value hx, if_pos hr] at hle'
  exact ⟨hr, hstart, hstop, hle, hle'⟩

/-- A transition without a band reports what the radio does by itself. -/
theorem ownState?_of_sensing?_eq_none (h : core.Sound) (hx : x.Permitted config core)
    (hs : s ∈ x.segments config core) (hnone : x.sensing? = none) (hτ : τ.isFinite)
    (hstart : s.start.value ≤ τ.value) (hstop : τ.value < s.stop.value) :
    core.record.ownState? τ = some s.state := by
  have hnow := Number.isFinite_of_isTime hx.time
  have hown : ∀ now : Number, now.isFinite → core.record.hasOpenReception now →
      s ∈ core.ownSegments now → core.record.ownState? τ = some s.state := by
    intro now hnow hopen hs
    rw [Record.hasOpenReception_iff _ hnow h.finite_stops] at hopen
    exact h.ownState?_ownSegments hnow hopen.2.1 hs hτ hstart hstop
  cases x with
  | completeReception | loseReception | abortReception => exact hown _ hnow hx.state hs
  | continueReception => cases hs
  | _ => cases hnone

/-- A transition with a band reports the state on that, as far as it is known which energy was
detected. -/
theorem stateOn_of_mem_segments (h : core.Sound) (hx : x.Permitted config core)
    (hres : core.table.resolution = config.thresholdResolution) (hs : s ∈ x.segments config core)
    {on : Sensing} (hon : on ∈ x.sensing?) (hthr : (on.thresholdIn config).isFinite)
    (hbegun : ∀ e ∈ core.table.find? on.band (on.stepIn config), e.busyStart.value ≤ core.cursor.value)
    (hτ : τ.isFinite) (hstart : s.start.value ≤ τ.value) (hstop : τ.value < s.stop.value) :
    core.record.stateOn core.table on.band (on.thresholdIn config) τ = .ok s.state := by
  have hnow := Number.isFinite_of_isTime hx.time
  have hle := (h.le_of_order hx.time hx.order).1
  have hmem := Transition.mem_segmentsUntil hon hs
  rw [Core.entryOn_eq h.resolution hres hthr] at hmem
  have he : ∀ e ∈ core.table.find? on.band (on.stepIn config), e.Sound :=
    fun e he => h.entries e (BusyTable.mem_of_find? he)
  rcases h.ownState?_segmentsUntil hnow hle he hbegun hmem hτ hstart hstop with hown | ⟨hown, hstate⟩
  · exact Record.stateOn_of_own hown
  · rw [Record.stateOn_of_idle hown (Sensing.step_eq h.resolution hres hthr), hstate]

end Core.Sound

/-- What a call tells of comes from a segment, which ends when it says. -/
theorem Call.Fits.segment_of_change {config : Config} {c : Call} {P : Number → Prop}
    (h : c.Fits config) (hw : c.tracker.core.Within P) (hP : c.transition.Names P)
    (hexact : ∀ a b, P a → P b → a.value ≤ b.value →
      (b - a).isFinite ∧ (b - a).value = b.value - a.value)
    {start duration : Number} {state : Radio.State} (hmem : (start, duration, state) ∈ c.stateChanges) :
    c.Accepted ∧ c.transition.Permitted config c.tracker.core ∧
      ∃ s ∈ c.transition.segments config c.tracker.core, s.start = start ∧ s.state = state ∧
        s.stop.value = start.value + duration.value := by
  by_cases ha : c.Accepted
  · obtain ⟨hp, -, hchanges⟩ := h.of_accepted ha
    rw [hchanges] at hmem
    obtain ⟨s, hs, hempty, rfl, rfl, rfl⟩ := Report.mem_told hmem
    refine ⟨ha, hp, s, hs, rfl, rfl, ?_⟩
    obtain ⟨-, hstart, hstop, -, -⟩ := h.sound.mem_segments hp hs
    have hle : s.start.value ≤ s.stop.value := by
      rw [Segment.isEmpty, decide_eq_false_iff_not, Number.le_iff hstop hstart] at hempty
      exact (not_le.1 hempty).le
    obtain ⟨hPstart, hPstop⟩ := hw.segments h.sound hp.time (hP.time hp.time) s hs
    rw [(hexact _ _ hPstart hPstop hle).2, add_sub_cancel]
  · rw [(h.of_refused ha).2] at hmem
    cases hmem

/-- After any run of a session in which no observer failed, each state change that was told is true at
each instant in it. If the call was about a band, and energy on the key of that was always primary, the
state is the one derived there from what the tracker remembered at the instant. If the call ended a
reception, it is the one derived on every band and at every threshold. -/
theorem Session.Run.trace_true {i : Nat} {s s' : Session} {calls : List Call} {config : Config}
    (hrun : Session.Run i s calls s') (hs : s.Starts i config)
    (hthr : ∀ c ∈ calls, c.transition.HasFiniteThreshold config)
    (hsum : ∀ c ∈ calls, c.transition.SumsExactly) (hexact : ExactTimes (timesOf calls)) {c : Call}
    (hc : c ∈ calls) {start duration : Number} {state : Radio.State}
    (hchange : (start, duration, state) ∈ c.stateChanges) {τ : Number} (hτ : τ.isFinite)
    (hstart : start.value ≤ τ.value) (hstop : τ.value < start.value + duration.value) :
    (∀ on ∈ c.transition.sensing?, (∀ d ∈ calls, ¬d.transition.IsSecondaryOn config on) →
      stateThen (.fresh config) calls on.band (on.thresholdIn config) τ = .ok state) ∧
    (c.transition.sensing? = none →
      ∀ band threshold, stateThen (.fresh config) calls band threshold τ = .ok state) := by
  have hfresh := Core.sound_fresh hs.resolution
  obtain ⟨t, -, -, -, hhist⟩ := hrun.history hs
  have hends : ∀ d ∈ calls, d.transition.EndsLater := fun d hd => (hsum d hd).endsLater
  obtain ⟨before, after, rfl⟩ := List.append_of_mem hc
  obtain ⟨hfits, hbefore, hafter⟩ := hhist.fits hfresh hthr hends
  obtain ⟨hthr', hthrc, hthra⟩ : (∀ d ∈ before, d.transition.HasFiniteThreshold config) ∧
      c.transition.HasFiniteThreshold config ∧ ∀ d ∈ after, d.transition.HasFiniteThreshold config := by
    simpa [or_imp, forall_and] using hthr
  obtain ⟨hends', hendsc, hendsa⟩ : (∀ d ∈ before, d.transition.EndsLater) ∧
      c.transition.EndsLater ∧ ∀ d ∈ after, d.transition.EndsLater := by
    simpa [or_imp, forall_and] using hends
  have hnames : ∀ d ∈ before ++ c :: after, d.transition.Names (IsTimeOf (before ++ c :: after)) :=
    fun d hd => Call.names_times hd (hsum d hd)
  have hw := hbefore.within hfresh (Core.within_fresh config _) hthr' hends'
    fun d hd => hnames d (List.mem_append_left _ hd)
  obtain ⟨ha, hp, s, hmem, rfl, rfl, hend⟩ := hfits.segment_of_change hw (hnames c hc) hexact.sub hchange
  rw [← hend] at hstop
  obtain ⟨hr, -, -, hcursor, htime⟩ := hfits.sound.mem_segments hp hmem
  have hτtime : τ.value < c.transition.time.value := hstop.trans_le htime
  -- neither the call nor what follows it has come by `τ`
  have hlater : ∀ d ∈ c :: after, d.Accepted → τ.value < d.transition.time.value := by
    intro d hd had
    rcases List.mem_cons.1 hd with rfl | hd
    · exact hτtime
    · have hsound : c.coreAfter.Sound := by
        rw [(hfits.of_accepted ha).2.1]
        exact hfits.sound.after hp hendsc
      refine hτtime.trans_le ?_
      rw [← hfits.cursor_after ha hr]
      exact hafter.le_time hsound hthra hendsa hd had
  have hstood : stoodAt (.fresh config) (before ++ c :: after) τ.value =
      stoodAt (.fresh config) before τ.value := stoodAt_append hlater
  have hres : c.tracker.core.table.resolution = config.thresholdResolution :=
    hbefore.resolution
  have hagrees : (stoodAt (.fresh config) before τ.value).Agrees config
      (fun on => ∀ d ∈ before, ¬d.transition.IsSecondaryOn config on) c.tracker.core :=
    hbefore.agrees_stoodAt hfresh hthr' hends' rfl (fun _ h => h) (hcursor.trans hstart)
  simp only [stateThen, hstood]
  refine ⟨fun on hon hprimary => ?_, fun hnone band threshold => ?_⟩
  · have hprimary : ∀ d ∈ before, ¬d.transition.IsSecondaryOn config on :=
      fun d hd => hprimary d (List.mem_append_left _ hd)
    have hbegun := hbefore.busyStart_le hfresh hthr' hends' rfl hprimary
      (by simp [Core.fresh, BusyTable.find?])
    rw [hagrees.stateOn hfits.sound hres hprimary (hthrc on hon)]
    exact hfits.sound.stateOn_of_mem_segments hp hres hmem hon (hthrc on hon) hbegun hτ hstart hstop
  · refine Record.stateOn_of_own ((hagrees.own τ).trans ?_)
    exact hfits.sound.ownState?_of_sensing?_eq_none hp hmem hnone hτ hstart hstop

/-- A reception of fifty units is followed by twenty units of energy after sixty. After a hundred, a
flush tells that the band was busy from sixty on, and so it was at seventy. -/
theorem Session.Run.trace_true_of_energy :
    ∃ calls s c, Session.Run 0 (.first {}) calls s ∧ c ∈ calls ∧
      (60, 20, .ccaBusy) ∈ c.stateChanges ∧
      stateThen (.fresh {}) calls ⟨0, 63⟩ (Sensing.thresholdIn ⟨⟨0, 63⟩, none⟩ {}) 70 = .ok .ccaBusy := by
  have hany : ((Session.requestAll 1 0 [.receive 0 50 ⟨⟨0, 63⟩, none⟩,
      .detectEnergy 60 20 ⟨⟨0, 63⟩, none⟩ true, .flush 100 ⟨⟨0, 63⟩, none⟩] [] (.first {})).any
        fun (calls, _) => calls.any fun c => c.stateChanges = [(60, 20, .ccaBusy), (80, 20, .idle)] ∧
          c.transition.sensing? = some ⟨⟨0, 63⟩, none⟩) = true := by
    decide +kernel
  obtain ⟨⟨calls, s⟩, hreq, hcalls⟩ := (Option.any_eq_true _ _).1 hany
  obtain ⟨c, hc, hchanges⟩ := List.any_eq_true.1 hcalls
  obtain ⟨hchanges, hon⟩ := of_decide_eq_true hchanges
  have hchange : (60, 20, .ccaBusy) ∈ c.stateChanges := by simp [hchanges]
  obtain ⟨hrun, hmap⟩ := Session.Run.nil.requestAll hreq
  rw [List.map_nil, List.nil_append] at hmap
  have hall : ∀ x ∈ calls.map Call.transition, x.HasFiniteThreshold {} ∧ x.SumsExactly ∧
      ¬x.IsSecondaryOn {} ⟨⟨0, 63⟩, none⟩ := by
    rw [hmap, List.forall_mem_cons, List.forall_mem_cons, List.forall_mem_singleton]
    refine ⟨⟨?_, ?_, id⟩, ⟨?_, ?_, id⟩, ?_, ?_, id⟩
    · rintro on ⟨⟩
      rfl
    · rintro d ⟨⟩
      decide +kernel
    · rintro on ⟨⟩
      rfl
    · rintro d ⟨⟩
      decide +kernel
    · rintro on ⟨⟩
      rfl
    · rintro d ⟨⟩
  rw [List.forall_mem_map] at hall
  have htimes : timesOf calls = [0, 0, 0 + 50, 60, 60 + 20, 100] := by
    rw [timesOf, ← List.flatMap_map, hmap]
    rfl
  have hexact : ExactTimes (timesOf calls) := by
    rw [htimes, ExactTimes]
    decide +kernel
  exact ⟨calls, s, c, hrun, hc, hchange, (trace_true hrun starts_first (fun d hd => (hall d hd).1)
    (fun d hd => (hall d hd).2.1) hexact hc hchange (by decide +kernel) (by decide +kernel)
    (by decide +kernel)).1 _ hon fun d hd => (hall d hd).2.2⟩

end RadioOccupancy
