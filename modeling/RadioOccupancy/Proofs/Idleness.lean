import RadioOccupancy.Proofs.Radio
import RadioOccupancy.Proofs.Threshold
import RadioOccupancy.Proofs.Transition
import RadioOccupancy.Tracker.Query

/-!
The time to idleness leads to the first instant at which the radio is idle.

    own      |---TX---|
             |-------RX-------|
    energy        |-----------------|
             ^ now                  ^ now + delay
    shown    TX       RX       BUSY  IDLE

The state at an instant is found by precedence, the time to idleness as a maximum. Both come down to the same
ends: the radio is idle at an instant just if all of them have passed (`stateOn_of_awake`), and the longest of
the times that remain leads to the last of them (`timeToIdle_reaches`).
-/

namespace RadioOccupancy

namespace Number

/-- The difference of two numbers is not rounded. -/
def DiffersExactly (a b : Number) : Prop :=
  (a - b).isFinite ∧ (a - b).value = a.value - b.value

instance (a b : Number) : Decidable (a.DiffersExactly b) :=
  inferInstanceAs (Decidable (_ ∧ _))

variable {remaining : Number → Number} {longest : Number} {stops : List Number}

/-- The longest of some times is the one it is first compared with or one of them. -/
theorem foldl_maximum_mem (hlongest : longest.isFinite)
    (hstops : ∀ stop ∈ stops, (remaining stop).isFinite) :
    stops.foldl (fun longest stop => longest.maximum (remaining stop)) longest = longest ∨
      ∃ stop ∈ stops,
        stops.foldl (fun longest stop => longest.maximum (remaining stop)) longest = remaining stop := by
  induction stops generalizing longest with
  | nil => exact Or.inl rfl
  | cons stop rest ih =>
    have hstop := hstops stop List.mem_cons_self
    have hrest : ∀ s ∈ rest, (remaining s).isFinite := fun s hs => hstops s (List.mem_cons_of_mem _ hs)
    rw [List.foldl_cons]
    rcases maximum_eq hlongest hstop with ⟨hmax, -⟩ | ⟨hmax, -⟩ <;> rw [hmax]
    · exact (ih hlongest hrest).imp_right fun ⟨s, hs, h⟩ => ⟨s, List.mem_cons_of_mem _ hs, h⟩
    · rcases ih hstop hrest with h | ⟨s, hs, h⟩
      · exact Or.inr ⟨stop, List.mem_cons_self, h⟩
      · exact Or.inr ⟨s, List.mem_cons_of_mem _ hs, h⟩

/-- The longest of some times is within a bound just if all of them are. -/
theorem foldl_maximum_le_iff (hlongest : longest.isFinite)
    (hstops : ∀ stop ∈ stops, (remaining stop).isFinite) (bound : ℚ) :
    (stops.foldl (fun longest stop => longest.maximum (remaining stop)) longest).value ≤ bound ↔
      longest.value ≤ bound ∧ ∀ stop ∈ stops, (remaining stop).value ≤ bound := by
  induction stops generalizing longest with
  | nil => simp
  | cons stop rest ih =>
    have hstop := hstops stop List.mem_cons_self
    have hrest : ∀ s ∈ rest, (remaining s).isFinite := fun s hs => hstops s (List.mem_cons_of_mem _ hs)
    rw [List.foldl_cons, List.forall_mem_cons, ← and_assoc]
    rcases maximum_eq hlongest hstop with ⟨hmax, hle⟩ | ⟨hmax, hle⟩ <;> rw [hmax]
    · rw [ih hlongest hrest]
      exact and_congr_left fun _ => ⟨fun h => ⟨h, hle.trans h⟩, fun h => h.1⟩
    · rw [ih hstop hrest]
      exact and_congr_left fun _ => ⟨fun h => ⟨hle.trans h, h⟩, fun h => h.2⟩

end Number

namespace Record

variable {r : Record} {table : BusyTable} {band : Band} {threshold now step : Number}

/-- The ends of the radio's own activities and of the energy on a band. -/
def endsBeside (r : Record) (entry : Option BusyEntry) : List Number :=
  r.ends ++ entry.toList.map BusyEntry.busyEnd

/-- Of the radio's own activities none runs on just if all their ends have passed. -/
theorem activity?_eq_none_iff (hnow : now.isFinite) (hends : ∀ stop ∈ r.ends, stop.isFinite) :
    r.activity? now = none ↔ ∀ stop ∈ r.ends, stop.value ≤ now.value := by
  have heq : r.ends = r.activities.map fun a => a.interval.stop := rfl
  rw [heq, List.forall_mem_map] at hends ⊢
  rw [activity?, Option.map_eq_none_iff, List.find?_eq_none]
  refine forall₂_congr fun a ha => ?_
  rw [decide_eq_true_iff, Number.lt_iff hnow (hends a ha), not_lt]

/-- A radio that is on and awake shows idleness just if all ends on the band have passed. -/
theorem stateOn_of_awake (hp : r.powerState? = none)
    (hstep : Threshold.step threshold table.resolution = .ok step)
    (hends : ∀ stop ∈ r.endsBeside (table.find? band step), stop.isFinite) (hnow : now.isFinite) :
    ∃ s, r.stateOn table band threshold now = .ok s ∧ s.isPowerSaving = false ∧
      (s = .idle ↔ ∀ stop ∈ r.endsBeside (table.find? band step), stop.value ≤ now.value) := by
  rw [endsBeside, List.forall_mem_append] at hends
  simp only [endsBeside, List.forall_mem_append]
  have hown : r.ownState? now = r.activity? now := by rw [ownState?, hp]; rfl
  rw [← activity?_eq_none_iff hnow hends.1]
  cases hact : r.activity? now with
  | some s =>
    refine ⟨s, stateOn_of_own (hown.trans hact), isPowerSaving_activity? hact, ?_⟩
    have hne : s ≠ .idle := by
      rw [activity?_eq] at hact
      rintro rfl
      split_ifs at hact <;> cases hact
    simp [hne]
  | none =>
    refine ⟨_, stateOn_of_idle (hown.trans hact) hstep, ?_, ?_⟩
    · split <;> rfl
    · cases hfind : table.find? band step with
      | none => simp
      | some e =>
        have hend : e.busyEnd.isFinite := hends.2 _ (by simp [hfind])
        simp [Number.lt_iff hnow hend]

/-- A radio that is off or asleep has no time to idleness. -/
theorem timeToIdle_of_powerSaving {s : Radio.State} (hp : r.powerState? = some s) :
    r.timeToIdle table band threshold now = .error ⟨"getDelayUntilIdle", .idleUndefined s⟩ := by
  have hown : r.ownState? now = some s := by rw [ownState?, hp]; rfl
  have hs : s.isPowerSaving := by
    rw [powerState?] at hp
    split_ifs at hp <;> cases hp <;> rfl
  rw [timeToIdle, stateOn_of_own hown]
  cases s with
  | sleep | off => rfl
  | _ => cases hs

/-- Otherwise it is the longest of the times that remain. -/
theorem timeToIdle_of_awake (hp : r.powerState? = none)
    (hstep : Threshold.step threshold table.resolution = .ok step)
    (hends : ∀ stop ∈ r.endsBeside (table.find? band step), stop.isFinite) (hnow : now.isFinite) :
    r.timeToIdle table band threshold now =
      .ok ((r.endsBeside (table.find? band step)).foldl
        (fun longest stop => longest.maximum (stop - now)) 0) := by
  obtain ⟨s, hs, hsaving, -⟩ := stateOn_of_awake hp hstep hends hnow
  rw [timeToIdle, hs, BusyTable.get, hstep]
  cases s with
  | sleep | off => cases hsaving
  | _ => rfl

/-- It leads to the last of the ends, or nowhere if they have all passed, and the way there is not rounded. -/
theorem timeToIdle_reaches (hp : r.powerState? = none)
    (hstep : Threshold.step threshold table.resolution = .ok step)
    (hends : ∀ stop ∈ r.endsBeside (table.find? band step), stop.isFinite ∧ stop.DiffersExactly now)
    (hnow : now.isTime) :
    ∃ delay, r.timeToIdle table band threshold now = .ok delay ∧ delay.isTime ∧
      (now + delay).isTime ∧ (now + delay).value = now.value + delay.value ∧
      ∀ t : ℚ, now.value ≤ t → ((now + delay).value ≤ t ↔
        ∀ stop ∈ r.endsBeside (table.find? band step), stop.value ≤ t) := by
  have hnowf := Number.isFinite_of_isTime hnow
  have hdiff : ∀ stop ∈ r.endsBeside (table.find? band step), (stop - now).isFinite :=
    fun stop hstop => (hends stop hstop).2.1
  have hmem := Number.foldl_maximum_mem Number.isFinite_zero hdiff
  have hbound := Number.foldl_maximum_le_iff Number.isFinite_zero hdiff
  refine ⟨_, timeToIdle_of_awake hp hstep (fun stop hstop => (hends stop hstop).1) hnowf, ?_⟩
  generalize (r.endsBeside (table.find? band step)).foldl
    (fun longest stop => longest.maximum (stop - now)) (0 : Number) = delay at hmem hbound ⊢
  rw [Number.value_zero] at hbound
  have hdelay : delay.isTime := by
    refine Number.isTime_iff.2 ⟨?_, ((hbound _).1 le_rfl).1⟩
    rcases hmem with rfl | ⟨stop, hstop, rfl⟩
    · rfl
    · exact hdiff stop hstop
  -- the sum is the end that the delay leads to, so there is a number for it
  obtain ⟨c, hc, hsum⟩ : ∃ c : Number, c.isFinite ∧ c.value = now.value + delay.value := by
    rcases hmem with rfl | ⟨stop, hstop, rfl⟩
    · exact ⟨now, hnowf, by rw [Number.value_zero, add_zero]⟩
    · exact ⟨stop, (hends stop hstop).1, by rw [(hends stop hstop).2.2]; ring⟩
  obtain ⟨hfin, hvalue⟩ := Number.add_of_value hnow hdelay hc hsum
  rw [hsum] at hvalue
  refine ⟨hdelay, Number.isTime_iff.2 ⟨hfin, ?_⟩, hvalue, fun t ht => ?_⟩
  · rw [hvalue]
    exact add_nonneg (Number.value_nonneg hnow) (Number.value_nonneg hdelay)
  · rw [hvalue, ← le_sub_iff_add_le', hbound, and_iff_right (sub_nonneg.2 ht)]
    refine forall₂_congr fun stop hstop => ?_
    rw [(hends stop hstop).2.2, sub_le_sub_iff_right]

end Record

/-- The answer to the question for the time to idleness, where it may be asked. -/
theorem Query.outcome_timeToIdle {config : Config} {core : Core} {now : Number} {on : Sensing}
    (hnow : now.isTime) (hband : on.band.isValid) :
    (Planning.plan (Query.timeToIdle config now on) core).outcome =
      core.record.timeToIdle core.table on.band (on.thresholdIn config) now := by
  have hquery : Planning.Draws (Query.timeToIdle config now on) core
      (core.record.timeToIdle core.table on.band (on.thresholdIn config) now) core [] := by
    refine ((Planning.checks_time _ now core).1 hnow).bind
      (((Planning.checks_band _ on.band core).1 hband).bind (Planning.draws_core_bind ?_))
    cases core.record.timeToIdle core.table on.band (on.thresholdIn config) now with
    | ok delay => exact Planning.draws_pure delay core
    | error r => exact (Planning.draws_log _ core).bind (Planning.draws_check (.error r) core)
  exact hquery.plan.1

/-- The time to idleness leads to the first instant from which on the radio is idle on the band, and there is
none just if the radio is off or asleep. -/
theorem Query.leads_to_idleness {config : Config} {core : Core} {now : Number} {on : Sensing}
    (hnow : now.isTime) (hband : on.band.isValid) (hthr : (on.thresholdIn config).isFinite)
    (hres : core.table.resolution.isFinite ∧ 0 < core.table.resolution)
    (hends : ∀ stop ∈ core.record.endsBeside (core.entryOn config on),
      stop.isFinite ∧ stop.DiffersExactly now) :
    let answer := core.record.timeToIdle core.table on.band (on.thresholdIn config) now
    let shown := core.record.stateOn core.table on.band (on.thresholdIn config)
    (Planning.plan (Query.timeToIdle config now on) core).outcome = answer ∧
    (core.record.poweredOff ∨ core.record.sleeping →
      ∃ refusal, answer = .error refusal ∧ refusal.code = .undefinedStateQuery) ∧
    (¬(core.record.poweredOff ∨ core.record.sleeping) →
      ∃ delay, answer = .ok delay ∧ delay.isTime ∧
        (now + delay).isTime ∧ (now + delay).value = now.value + delay.value ∧
        shown (now + delay) = .ok .idle ∧
        ∀ t : Number, t.isFinite → now ≤ t →
          ∃ s, shown t = .ok s ∧ (s = .idle ↔ now + delay ≤ t)) := by
  intro answer shown
  refine ⟨outcome_timeToIdle hnow hband, fun hsaving => ?_, fun hawake => ?_⟩
  · obtain ⟨s, hs⟩ : ∃ s, core.record.powerState? = some s := by
      rw [← Option.ne_none_iff_exists', ne_eq, Record.powerState?_eq_none_iff]
      rintro ⟨hoff, hsleeping⟩
      simp [hoff, hsleeping] at hsaving
    exact ⟨_, Record.timeToIdle_of_powerSaving hs, rfl⟩
  · have hp : core.record.powerState? = none := by
      rw [Record.powerState?_eq_none_iff]
      simpa using hawake
    obtain ⟨step, hstep, -⟩ := Threshold.step_defined hthr hres.1 hres.2
    have hentry : core.entryOn config on = core.table.find? on.band step := by
      rw [Core.entryOn, BusyTable.get, hstep]
      rfl
    rw [hentry] at hends
    have hfin := fun stop hstop => (hends stop hstop).1
    obtain ⟨delay, hanswer, hdelay, hsum, hvalue, hpassed⟩ :=
      Record.timeToIdle_reaches hp hstep hends hnow
    have hsumf := Number.isFinite_of_isTime hsum
    have hnowle : now.value ≤ (now + delay).value := by
      rw [hvalue]
      exact le_add_of_nonneg_right (Number.value_nonneg hdelay)
    have hshown : ∀ t : Number, t.isFinite → now ≤ t →
        ∃ s, shown t = .ok s ∧ (s = .idle ↔ now + delay ≤ t) := by
      intro t ht hle
      rw [Number.le_iff (Number.isFinite_of_isTime hnow) ht] at hle
      obtain ⟨s, hs, -, hidle⟩ := Record.stateOn_of_awake hp hstep hfin ht
      exact ⟨s, hs, by rw [hidle, Number.le_iff hsumf ht, hpassed _ hle]⟩
    refine ⟨delay, hanswer, hdelay, hsum, hvalue, ?_, hshown⟩
    obtain ⟨s, hs, hidle⟩ := hshown (now + delay) hsumf
      ((Number.le_iff (Number.isFinite_of_isTime hnow) hsumf).2 hnowle)
    rw [hs, hidle.2 (Number.le_rfl_of_isTime hsum)]

/-- Twenty units after the beginning, a transmission lasts until thirty, a reception that it masks until fifty
and the energy on the band until sixty. The radio is idle in forty units. -/
theorem Query.leads_to_idleness_of_overlap :
    let core : Core :=
      { record := { switching := ⟨0, 5⟩, tx := ⟨10, 30⟩, rx := ⟨0, 50⟩ }
        table := ⟨0.01, [⟨⟨0, 63⟩, -8200, 12, 60⟩]⟩ }
    (Planning.plan (Query.timeToIdle {} 20 ⟨⟨0, 63⟩, none⟩) core).outcome = .ok 40 ∧
      core.record.stateOn core.table ⟨0, 63⟩ (-82) 60 = .ok .idle ∧
      ∀ t : Number, t.isFinite → 20 ≤ t → t < 60 →
        core.record.stateOn core.table ⟨0, 63⟩ (-82) t ≠ .ok .idle := by
  intro core
  have hlist : core.record.endsBeside (core.entryOn {} ⟨⟨0, 63⟩, none⟩) = [5, 30, 50, 60] := by
    decide +kernel
  have hends : ∀ stop ∈ ([5, 30, 50, 60] : List Number), stop.isFinite ∧ stop.DiffersExactly 20 := by
    simp only [List.forall_mem_cons, Number.DiffersExactly]
    decide +kernel
  obtain ⟨houtcome, -, h⟩ :=
    @Query.leads_to_idleness {} core 20 ⟨⟨0, 63⟩, none⟩ (by decide) (by decide +kernel)
    (by decide +kernel) (by decide +kernel) (by rw [hlist]; exact hends)
  obtain ⟨delay, hanswer, -, -, -, hidle, hshown⟩ := h (by decide)
  have hdelay : delay = 40 := by
    have hforty : (core.record.timeToIdle core.table ⟨0, 63⟩ (-82) 20).toOption = some 40 := by
      decide +kernel
    exact Option.some.inj ((congrArg Except.toOption hanswer).symm.trans hforty)
  subst hdelay
  have hsum : (20 + 40 : Number) = 60 := by decide +kernel
  rw [hsum] at hidle hshown
  refine ⟨houtcome.trans hanswer, hidle, fun t ht hle hlt hs => ?_⟩
  obtain ⟨s, hs', hiff⟩ := hshown t ht hle
  obtain rfl := Except.ok.inj (hs'.symm.trans hs)
  exact Number.not_le_of_lt hlt (hiff.1 rfl)

end RadioOccupancy
