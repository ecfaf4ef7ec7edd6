import RadioOccupancy.Proofs.Hearing
import RadioOccupancy.Proofs.Persistence
import RadioOccupancy.Proofs.Refinement
import RadioOccupancy.Proofs.Rounding

/-!
What the radio shows when an activity has just begun.

    retune at now for d          now + d is later          now + d is now
    |-------SWITCHING-------|    shown at now: SWITCHING   shown at now: what is behind
    now                     now + d

The end of an activity is its time plus its duration, as numbers are added. A transition that may begin one
finds nothing that masks it (`Transition.Permitted.unmasked`). So right after it the activity shows just if it
ends later than it has begun (`Transition.Permitted.shows_begun`), and that is a question of rounding. With
the energy that is recorded on a band it is the same, only that a longer busy period stays
(`BusyTable.detected_busy`).
-/

namespace RadioOccupancy

/-! ### Which activity shows -/

namespace Record

variable {r : Record} {table : BusyTable} {band : Band} {threshold now : Number}

/-- There is one activity for each of the states that stand for one. -/
theorem eq_of_state_eq {v w : Activity} (hv : v ∈ r.activities) (hw : w ∈ r.activities)
    (h : w.state = v.state) : w = v := by
  have hnodup : (r.activities.map Activity.state).Nodup := by simp [activities]
  exact List.inj_on_of_nodup_map hnodup hw hv h

/-- An activity that nothing masks shows just if it has not ended. -/
theorem ownState?_iff_of_mem {v : Activity} (hv : v ∈ r.activities) (hpower : r.powerState? = none)
    (hmask : ∀ w ∈ r.masking v, ¬now < w.interval.stop) :
    r.ownState? now = some v.state ↔ now < v.interval.stop := by
  refine ⟨fun hown => ?_, fun hlater => ownState?_of_mem hv hlater hpower hmask⟩
  rw [ownState?, hpower] at hown
  obtain ⟨w, hfind, hstate⟩ := Option.map_eq_some_iff.1 (hown : r.activity? now = some v.state)
  rw [← eq_of_state_eq hv (List.mem_of_find?_eq_some hfind) hstate]
  simpa using List.find?_some hfind

/-- An activity is shown on a band just if it is what the radio does by itself. -/
theorem stateOn_eq_ok_iff {s : Radio.State} (hs : s ≠ .idle ∧ s ≠ .ccaBusy) :
    r.stateOn table band threshold now = .ok s ↔ r.ownState? now = some s := by
  cases hown : r.ownState? now with
  | some s' => rw [stateOn_of_own hown, Except.ok.injEq, Option.some.injEq]
  | none =>
    refine iff_of_false (fun hshown => ?_) (by rintro ⟨⟩)
    cases hstep : Threshold.step threshold table.resolution with
    | error r =>
      rw [stateOn_error hown hstep] at hshown
      cases hshown
    | ok step =>
      rw [stateOn_of_idle hown hstep] at hshown
      have hs' := Except.ok.inj hshown
      split at hs'
      · exact hs.2 hs'.symm
      · exact hs.1 hs'.symm

end Record

/-! ### What a permitted transition finds -/

/-- A radio that shows neither sleep nor power off is on and awake. -/
theorem Core.Shows.awake {core : Core} {config : Config} {now : Number} {on : Sensing}
    {allowed : Radio.State → Prop} (h : core.Shows config now on allowed)
    (hnot : ¬allowed .off ∧ ¬allowed .sleep) : core.record.powerState? = none := by
  rw [← Option.not_isSome_iff_eq_none, Option.isSome_iff_exists]
  rintro ⟨s, hs⟩
  have hown : core.record.ownState? now = some s := by
    rw [Record.ownState?, hs]
    rfl
  have hallowed := h.allows hown
  rw [Record.powerState?] at hs
  split_ifs at hs
  · obtain rfl := Option.some.inj hs
    exact hnot.1 hallowed
  · obtain rfl := Option.some.inj hs
    exact hnot.2 hallowed

namespace Transition

variable {config : Config} {core : Core} {x : Transition} {state : Radio.State} {duration : Number}

/-- The state that stands for the activity that a transition begins. -/
def begins? : Transition → Option Radio.State
  | .transmit .. => some .tx
  | .receive .. => some .rx
  | .retune .. => some .switching
  | _ => none

/-- A transition that may begin an activity finds the radio on and awake, and nothing that would mask it. -/
theorem Permitted.unmasked (hp : x.Permitted config core) (hx : x.begins? = some state) (i : Interval) :
    core.record.powerState? = none ∧
      ∀ w ∈ core.record.masking ⟨i, state⟩, ¬x.time < w.interval.stop := by
  cases x with
  | transmit now duration ppdu power vector on =>
    obtain rfl := Option.some.inj hx
    have hstate : core.Shows config now on (· ∉ [.off, .sleep, .rx, .switching]) := hp.state
    have hpower := hstate.awake (by simp)
    refine ⟨hpower, fun w hw hlater => ?_⟩
    -- only a switch of channels masks a transmission, and it would show
    obtain rfl : w = ⟨core.record.switching, .switching⟩ := by
      simpa [Record.masking, Record.activities] using hw
    have hown : core.record.ownState? now = some .switching :=
      (Record.ownState?_iff_of_mem (Record.mem_activities_iff.2 (Or.inl rfl)) hpower
        (by simp [Record.masking, Record.activities])).2 hlater
    exact hstate.allows hown (by simp)
  | receive now duration on =>
    obtain rfl := Option.some.inj hx
    have hstate : core.Shows config now on (· ∈ [.idle, .ccaBusy]) := hp.state
    have hpower := hstate.awake (by simp)
    refine ⟨hpower, fun w hw hlater => ?_⟩
    -- whatever has not ended, something other than energy shows
    obtain ⟨s, hs⟩ : ∃ s, core.record.activity? now = some s := by
      refine Option.ne_none_iff_exists'.1 fun hnone => ?_
      rw [Record.activity?, Option.map_eq_none_iff, List.find?_eq_none] at hnone
      exact hnone w ((List.takeWhile_prefix _).subset hw) (decide_eq_true hlater)
    have hown : core.record.ownState? now = some s := by
      rw [Record.ownState?, hpower, hs]
      rfl
    have hallowed := hstate.allows hown
    rw [Record.activity?_eq] at hs
    split_ifs at hs <;> cases hs <;> simp at hallowed
  | retune now duration on =>
    obtain rfl := Option.some.inj hx
    have hstate : core.Shows config now on (· ∉ [.off, .sleep]) := hp.state
    exact ⟨hstate.awake (by simp), by simp [Record.masking, Record.activities]⟩
  | _ => cases hx

/-- Right after a permitted transition has begun an activity, this shows just if it ends after the transition.
-/
theorem Permitted.shows_begun (hp : x.Permitted config core) (hx : x.begins? = some state)
    (hd : x.duration? = some duration) :
    let after := coreAfter (x.deeds config core) core
    ⟨.lasting x.time duration, state⟩ ∈ after.record.activities ∧
      ∀ (band : Band) (threshold : Number),
        after.record.stateOn after.table band threshold x.time = .ok state ↔ x.time < x.time + duration := by
  intro after
  obtain ⟨hpower, hmask⟩ := hp.unmasked hx (.lasting x.time duration)
  have hactive : state ≠ .idle ∧ state ≠ .ccaBusy := by
    cases x <;> cases hx <;> decide
  have hwritten : ⟨.lasting x.time duration, state⟩ ∈ after.record.activities ∧
      after.record.powerState? = core.record.powerState? ∧
        after.record.masking ⟨.lasting x.time duration, state⟩ =
          core.record.masking ⟨.lasting x.time duration, state⟩ := by
    cases x with
    | transmit now | receive now | retune now =>
      obtain rfl := Option.some.inj hx
      obtain rfl := Option.some.inj hd
      have hrecord : after.record = _ := record_deeds rfl
      rw [hrecord]
      refine ⟨?_, rfl, rfl⟩
      change (⟨.lasting now _, _⟩ : Activity) ∈ _
      simp [Change.applyToRecord, Record.activities]
    | _ => cases hx
  obtain ⟨hmem, hsame, hmasks⟩ := hwritten
  refine ⟨hmem, fun band threshold => ?_⟩
  rw [Record.stateOn_eq_ok_iff hactive]
  exact Record.ownState?_iff_of_mem hmem (hsame.trans hpower) (hmasks ▸ hmask)

end Transition

/-! ### Energy -/

/-- After a detection the entry of its key ends with the detection, or it stays if it ends no earlier. The key
is busy at the instant of the detection just if the entry ends after it. -/
theorem BusyTable.detected_busy {t : BusyTable} {band : Band} {threshold step now duration : Number}
    (hstep : Threshold.step threshold t.resolution = .ok step) :
    let after := t.detected band step now duration
    ∃ e, after.get band threshold = .ok (some e) ∧
      (e.busyEnd = now + duration ∨ t.get band threshold = .ok (some e) ∧ now + duration ≤ e.busyEnd) ∧
        after.isBusyAt band threshold now = .ok (decide (now < e.busyEnd)) := by
  intro after
  have hget {u : BusyTable} (hres : u.resolution = t.resolution) :
      u.get band threshold = .ok (u.find? band step) := by
    rw [get, hres, hstep]
    rfl
  have hfind : after.find? band step =
      some (detectionBeside (t.find? band step) band step now duration).entry := by
    rw [find?_detected, if_pos]
    rw [Bool.and_eq_true, Band.sameKey_iff, Number.same_iff_key]
    exact ⟨⟨rfl, rfl⟩, rfl⟩
  have hres : after.resolution = t.resolution := resolution_detected ..
  refine ⟨_, by rw [hget hres, hfind], ?_, by rw [isBusyAt, hget hres, hfind]; rfl⟩
  rcases entry_beside (t.find? band step) band step now duration with ⟨hstays, hlate⟩ | ⟨⟨-, -, hend⟩, -⟩
  · refine Or.inr ⟨by rw [hget rfl, ← hstays], ?_⟩
    generalize (detectionBeside (t.find? band step) band step now duration).entry = e at hstays
    rw [hstays, detectionBeside] at hlate
    split at hlate
    · assumption
    · cases hlate
  · exact Or.inl hend

/-! ### Whole courses -/

/-- What a tracker remembers in the end is what the last attempt has left. -/
theorem Trials.coreAfter_of_getLast {config : Config} {start core : Core} {attempts : List Attempt}
    {a : Attempt} (h : Trials config start attempts core) (hlast : attempts.getLast? = some a) :
    core = a.coreAfter := by
  cases h with
  | nil => cases hlast
  | snoc =>
    rw [List.getLast?_concat] at hlast
    obtain rfl := Option.some.inj hlast
    rfl

/-- In every course of a session in which a tracker begins, whatever observers do and whether they fail: an
accepted transition begins its activity at its time, and ends it a duration later as numbers are added. Right
after that the radio shows the activity on every band just if it ends later than it has begun. It does so just
if the duration leads past the middle of the gap after the time. The end is finite just if it is before the
middle of the gap after the largest number. Of the energy that is recorded on a band the same is true, except
that an entry stays that ends no earlier. -/
theorem Session.Starts.shows_begun_iff {s : Session} {i : Nat} {config : Config} (hs : s.Starts i config) :
    (∀ rs : List Request, ∃ attempts, Course i s attempts (s.after rs)) ∧
    ∀ attempts s', Course i s attempts s' →
      (∃ t, s'.trackers[i]? = some t ∧ ∀ a, attempts.getLast? = some a → t.core = a.coreAfter) ∧
      ∀ a ∈ attempts, a.Accepted → ∀ duration, a.transition.duration? = some duration →
        let now := a.transition.time
        (now ≤ now + duration ∧ (now < now + duration ↔ now.Advances duration) ∧
          ((now + duration).isFinite ↔ now.value + duration.value < 2 ^ 1024 - 2 ^ 970)) ∧
        (∀ state, a.transition.begins? = some state →
          ⟨.lasting now duration, state⟩ ∈ a.coreAfter.record.activities ∧
            ∀ on : Sensing, on.band.isValid →
              ((Planning.plan (Query.state config now on) a.coreAfter).outcome = .ok state ↔
                now < now + duration)) ∧
        ∀ on, a.transition.recordsOn? = some on →
          ∃ e, a.coreAfter.table.get on.band (on.thresholdIn config) = .ok (some e) ∧
            (e.busyEnd = now + duration ∨
              a.tracker.core.table.get on.band (on.thresholdIn config) = .ok (some e) ∧
                now + duration ≤ e.busyEnd) ∧
            a.coreAfter.table.isBusyAt on.band (on.thresholdIn config) now =
              .ok (decide (now < e.busyEnd)) := by
  refine ⟨course_steps i s, fun attempts s' hcourse => ?_⟩
  obtain ⟨t, ht, -, -, htrials⟩ := hcourse.trials hs
  refine ⟨⟨t, ht, fun a hlast => htrials.coreAfter_of_getLast hlast⟩, fun a ha haccepted duration hd => ?_⟩
  obtain ⟨before, after, rfl⟩ := List.append_of_mem ha
  obtain ⟨mid, -, hrest⟩ := htrials.split
  obtain ⟨-, rfl, hpart, -⟩ := hrest.of_cons
  obtain ⟨hp, hcore⟩ := hpart.of_accepted haccepted
  have hnow := hp.time
  have hduration := Transition.isTime_of_duration? hp.arguments duration hd
  refine ⟨⟨Number.le_add hnow hduration, Number.lt_add_iff hnow hduration,
    Number.isFinite_add_iff hnow hduration⟩, fun state hx => ?_, fun on hon => ?_⟩
  · obtain ⟨hmem, hshows⟩ := hp.shows_begun hx hd
    rw [hcore]
    refine ⟨hmem, fun on hband => ?_⟩
    rw [Query.outcome_state hnow hband]
    exact hshows on.band (on.thresholdIn a.tracker.config)
  · obtain ⟨step, hstep⟩ := Tracker.isUsable_of_accepted haccepted.2 hon
    rw [hcore, Transition.table_deeds hon hd hstep]
    exact BusyTable.detected_busy hstep

namespace Session

/-- At two to the power of fifty-three the next number is two away. A switch of channels that is to last three
units from then on lasts four, and it shows. -/
theorem shows_begun_of_late_switch :
    ∃ a s', Course 0 (firstUnder "radio") [a] s' ∧ a.transition = .retune 9007199254740992 3 ⟨⟨0, 63⟩, none⟩ ∧
      ⟨⟨9007199254740992, 9007199254740996⟩, .switching⟩ ∈ a.coreAfter.record.activities ∧
      (Planning.plan (Query.state {} 9007199254740992 ⟨⟨0, 63⟩, none⟩) a.coreAfter).outcome =
        .ok .switching := by
  let xs : List Transition := [.retune 9007199254740992 3 ⟨⟨0, 63⟩, none⟩]
  have hcourse := (Course.nil (i := 0) (s := firstUnder "radio")).attemptAll 1 xs
  have hall : (attemptAll 1 0 xs [] (firstUnder "radio")).1.map
      (fun a => (a.broken.isNone, a.plan.outcome.isOk, a.transition)) =
      [(true, true, .retune 9007199254740992 3 ⟨⟨0, 63⟩, none⟩)] := by
    decide +kernel
  obtain ⟨a, hmade, ha⟩ := List.map_eq_singleton_iff.1 hall
  rw [hmade] at hcourse
  simp only [Prod.mk.injEq] at ha
  obtain ⟨hbroken, hout, hx⟩ := ha
  have haccepted : a.Accepted := ⟨Option.isNone_iff_eq_none.1 hbroken, Act.eq_ok_of_isOk hout⟩
  obtain ⟨-, hruns⟩ := (starts_firstUnder "radio").shows_begun_iff.2 _ _ hcourse
  have hbegun := hruns a (List.mem_singleton_self a) haccepted 3 (by rw [hx]; rfl)
  rw [hx] at hbegun
  obtain ⟨⟨-, hlater, -⟩, hshows, -⟩ := hbegun
  obtain ⟨hmem, hstate⟩ := hshows .switching rfl
  have hadvances : Number.Advances 9007199254740992 3 := by decide +kernel
  exact ⟨a, _, hcourse, hx, hmem, (hstate ⟨⟨0, 63⟩, none⟩ (by decide +kernel)).2 (hlater.2 hadvances)⟩

/-- Not all that is begun shows, and not every end is finite. A switch of channels for one unit from then on
ends where it begins, energy for one unit leaves the band clear, and two times that are long enough have no
finite sum. -/
theorem late_switch_lost :
    let on : Sensing := ⟨⟨0, 63⟩, none⟩
    let request : Transition → Request := fun x => .tracker "radio" (.transition x)
    let accepted : Transition → Bool := fun x => ((firstUnder "radio").step (request x)).1.reply.result.isOk
    let core? : Transition → Option Core := fun x =>
      ((firstUnder "radio").after [request x]).trackers[0]?.map Tracker.core
    let shown : Transition → Option Radio.State := fun x =>
      (core? x).bind fun core => (Planning.plan (Query.state {} x.time on) core).outcome.toOption
    let switch : Transition := .retune 9007199254740992 1 on
    let energy : Transition := .detectEnergy 9007199254740992 1 on true
    let long : Transition := .retune 1e308 1e308 on
    (0 : Number) < 1 ∧ accepted switch ∧ accepted energy ∧ accepted long ∧
      (core? switch).map (fun core => core.record.switching) = some ⟨9007199254740992, 9007199254740992⟩ ∧
      shown switch = some .idle ∧ shown energy = some .idle ∧
      (core? long).map (fun core => core.record.switching.stop.isFinite) = some false := by
  decide +kernel

end Session

end RadioOccupancy
