import RadioOccupancy.Proofs.Clock

/-!
What has not ended goes on, and shows again when nothing masks it any more.

    tx          |-----------------------|
    switching         |-----|
    shown       |-tx--|-sw--|----tx-----|

A transition writes to one interval at most. It begins a transmission, a reception or a switch of channels
in the place of the latest one, or it ends the reception that is open. A reception is begun only when the
latest one is over. So what can be cut short is a transmission by another, a switch by another, and a
reception by its end (`Transition.cutsShort?`). Busy periods are never cut short: an entry stays in the
table, and its end only moves forward (`BusyTable.PersistsIn`).
-/

namespace RadioOccupancy

/-! ### Busy periods -/

namespace BusyTable

/-- Each key that has an entry in the table has one in the other, and that ends no earlier. -/
def PersistsIn (t t' : BusyTable) : Prop :=
  ∀ band step, ∀ e ∈ t.find? band step, ∃ e' ∈ t'.find? band step, e.busyEnd ≤ e'.busyEnd

theorem PersistsIn.trans {t t' t'' : BusyTable} (h : t.PersistsIn t') (h' : t'.PersistsIn t'') :
    t.PersistsIn t'' := by
  intro band step e he
  obtain ⟨e', he', hle⟩ := h band step e he
  obtain ⟨e'', he'', hle'⟩ := h' band step e' he'
  exact ⟨e'', he'', Number.le_trans hle hle'⟩

/-- An entry is put in that ends no earlier than the one for its key. -/
theorem PersistsIn.put {t t' : BusyTable} (h : t.PersistsIn t') {entry : BusyEntry}
    (hentry : ∀ e ∈ t.find? entry.band entry.step, e.busyEnd ≤ entry.busyEnd) :
    t.PersistsIn (t'.put entry) := by
  intro band step e he
  rw [find?_put]
  split
  · next hfor =>
    rw [← find?_congr t hfor] at he
    exact ⟨entry, rfl, hentry e he⟩
  · exact h band step e he

end BusyTable

namespace Core.Dated

variable {core : Core}

/-- No end of a busy period is undefined. -/
theorem not_isNaN_busyEnd (h : core.Dated) {band : Band} {step : Number} {e : BusyEntry}
    (he : e ∈ core.table.find? band step) : e.busyEnd.isNaN = false :=
  (Number.le_iff_rank.1 (h e (BusyTable.mem_of_find? he)).2).2.1

theorem persistsIn_self (h : core.Dated) : core.table.PersistsIn core.table :=
  fun _ _ e he => ⟨e, he, Number.le_refl_of_not_isNaN (h.not_isNaN_busyEnd he)⟩

/-- The busy entries that a permitted transition sets end no earlier than those for their keys. -/
theorem le_of_mem_deeds (h : core.Dated) {config : Config} {x : Transition}
    (hp : x.Permitted config core) {entry : BusyEntry} (hmem : .change (.busy entry) ∈ x.deeds config core) :
    ∀ e ∈ core.table.find? entry.band entry.step, e.busyEnd ≤ entry.busyEnd := by
  obtain ⟨on, -, step, duration, -, hd, hlatest, rfl⟩ := Transition.beside_of_mem_deeds hp hmem
  have hnan := (Number.le_iff_rank.1 (Number.le_add hp.time hd)).2.1
  have hbeside := BusyTable.entry_beside (core.table.find? on.band step) on.band step x.time duration
  rw [hlatest] at hbeside
  obtain ⟨⟨hband, hstep, hend⟩, -⟩ := hbeside.resolve_left (by rintro ⟨-, ⟨⟩⟩)
  rw [hband, hstep, hend]
  intro e he
  rw [Option.mem_def.1 he, BusyTable.detectionBeside] at hlatest
  split at hlatest
  · cases hlatest
  · next hnot => exact Number.le_of_not_le (h.not_isNaN_busyEnd he) hnan hnot

/-- So what is busy persists throughout the deeds of a permitted transition. -/
theorem persistsIn_throughout (h : core.Dated) {config : Config} {x : Transition}
    (hp : x.Permitted config core) :
    Throughout (fun core' => core.table.PersistsIn core'.table) (x.deeds config core) core := by
  refine .of_changes h.persistsIn_self fun c hc core' hpersists => ?_
  cases c with
  | busy entry => exact hpersists.put (h.le_of_mem_deeds hp hc)
  | _ => exact hpersists

end Core.Dated

/-! ### The radio's own activities -/

namespace Record

variable {r : Record} {v : Activity}

/-- An activity is one of three. -/
theorem mem_activities_iff :
    v ∈ r.activities ↔ v = ⟨r.switching, .switching⟩ ∨ v = ⟨r.tx, .tx⟩ ∨ v = ⟨r.rx, .rx⟩ := by
  simp [activities]

/-- The activities that mask another. -/
def masking (r : Record) (v : Activity) : List Activity :=
  r.activities.takeWhile fun w => w.state ≠ v.state

/-- What has not ended shows, if the radio is on and awake and all that masks it has ended. -/
theorem ownState?_of_mem {τ : Number} (hv : v ∈ r.activities) (hτ : τ < v.interval.stop)
    (hpower : r.powerState? = none) (hmask : ∀ w ∈ r.masking v, ¬τ < w.interval.stop) :
    r.ownState? τ = some v.state := by
  rw [ownState?, hpower, activity?_eq]
  rcases mem_activities_iff.1 hv with rfl | rfl | rfl
  · simp [hτ]
  · have hs : ¬τ < r.switching.stop := hmask ⟨r.switching, .switching⟩ (by simp [masking, activities])
    simp [hs, hτ]
  · have hs : ¬τ < r.switching.stop := hmask ⟨r.switching, .switching⟩ (by simp [masking, activities])
    have ht : ¬τ < r.tx.stop := hmask ⟨r.tx, .tx⟩ (by simp [masking, activities])
    simp [hs, ht, hτ]

end Record

namespace Transition

variable {config : Config} {core : Core} {x : Transition}

/-- The activity that a transition may cut short. -/
def cutsShort? : Transition → Option Radio.State
  | .transmit .. => some .tx
  | .retune .. => some .switching
  | .completeReception .. | .loseReception .. | .abortReception .. => some .rx
  | _ => none

/-- What a permitted transition writes to the record leaves alone what has not ended by its time, but for
the activity that it may cut short. -/
theorem mem_activities_of_update? {c : Change} (hp : x.Permitted config core) (hc : x.update? = some c)
    {v : Activity} (hv : v ∈ core.record.activities) (hlater : x.time < v.interval.stop)
    (hcut : x.cutsShort? ≠ some v.state) : v ∈ (c.applyToRecord core.record).activities := by
  rw [Record.mem_activities_iff] at hv
  cases x with
  | transmit | retune | completeReception | loseReception | abortReception =>
    obtain rfl := Option.some.inj hc
    rcases hv with rfl | rfl | rfl
    all_goals first
      | exact absurd rfl hcut
      | simp [Record.activities, Change.applyToRecord]
  | receive now duration on =>
    obtain rfl := Option.some.inj hc
    rcases hv with rfl | rfl | rfl
    · simp [Record.activities, Change.applyToRecord]
    · simp [Record.activities, Change.applyToRecord]
    · -- a reception that has not ended shows, or something else does that masks it
      exfalso
      rcases Record.ownState?_of_running (Or.inr hlater) with hs | hs | hs | ⟨-, hs⟩ | ⟨-, hs⟩
      all_goals simpa using hp.state.allows hs
  | detectEnergy | fallAsleep | wakeUp | powerOff | powerOn =>
    obtain rfl := Option.some.inj hc
    exact Record.mem_activities_iff.2 hv
  | continueReception | flush => cases hc

end Transition

/-! ### Attempts -/

namespace Attempt.IsPart

variable {a : Attempt}

/-- An attempt cuts no busy period short. -/
theorem persistsIn (ha : a.IsPart) (h : a.tracker.core.Dated) :
    a.tracker.core.table.PersistsIn a.coreAfter.table :=
  ha.holds (P := fun core => a.tracker.core.table.PersistsIn core.table) h.persistsIn_self
    (fun hp => h.persistsIn_throughout hp) (List.prefix_append _ _)

/-- An attempt leaves alone what has not ended by its time, but for what its transition may cut short. -/
theorem mem_activities (ha : a.IsPart) {v : Activity} (hv : v ∈ a.tracker.core.record.activities)
    (h : a.tookEffect → a.transition.time < v.interval.stop ∧ a.transition.cutsShort? ≠ some v.state) :
    v ∈ a.coreAfter.record.activities := by
  rcases ha.record with ⟨-, hsame⟩ | ⟨htook, hp, c, hc, hwritten⟩
  · rwa [hsame]
  · rw [hwritten]
    exact Transition.mem_activities_of_update? hp hc hv (h htook).1 (h htook).2

end Attempt.IsPart

/-- What has not ended before some attempts goes on after them. -/
theorem Trials.persists {config : Config} {start core : Core} {attempts : List Attempt}
    (h : Trials config start attempts core) (hstart : start.Coherent ∧ start.Dated) :
    start.table.PersistsIn core.table ∧
      ∀ v ∈ start.record.activities,
        (∀ a ∈ attempts, a.tookEffect →
          a.transition.time < v.interval.stop ∧ a.transition.cutsShort? ≠ some v.state) →
        v ∈ core.record.activities := by
  induction h with
  | nil => exact ⟨hstart.2.persistsIn_self, fun v hv _ => hv⟩
  | @snoc attempts a h hconfig hpart ih =>
    refine ⟨ih.1.trans (hpart.persistsIn (h.ordered hstart).1.2), fun v hv hall => ?_⟩
    obtain ⟨hall, ha⟩ := List.forall_mem_append.1 hall
    exact hpart.mem_activities (ih.2 v hv hall) (ha a (List.mem_singleton_self a))

/-- Whatever is requested of a session in which a tracker begins, whatever observers do and whether they
fail: no attempt removes a busy entry or makes it end earlier, and none cuts an activity short that has not
ended by its time, unless the transition is there for that. So what has not ended before some attempts goes
on after them, if none of them is there to cut it short and all come before its end. An activity shows until
it ends, if the radio is on and awake and all that masks it has ended. Energy shows where no activity does. -/
theorem Session.Starts.activities_persist {s : Session} {i : Nat} {config : Config} (hs : s.Starts i config) :
    (∀ rs, ∃ attempts, Course i s attempts (s.after rs)) ∧
    ∀ attempts s', Course i s attempts s' →
      ∃ t, s'.trackers[i]? = some t ∧ ∀ before a after, attempts = before ++ a :: after →
        (a.tracker.core.table.PersistsIn a.coreAfter.table ∧
          ∀ v ∈ a.tracker.core.record.activities, a.transition.time < v.interval.stop →
            a.transition.cutsShort? ≠ some v.state → v ∈ a.coreAfter.record.activities) ∧
        (a.tracker.core.table.PersistsIn t.core.table ∧
          ∀ band threshold step, Threshold.step threshold t.core.table.resolution = .ok step →
            ∀ e ∈ a.tracker.core.table.find? band step, ∀ τ : Number, τ < e.busyEnd →
              t.core.record.ownState? τ = none →
                t.core.record.stateOn t.core.table band threshold τ = .ok .ccaBusy) ∧
        ∀ v ∈ a.tracker.core.record.activities,
          (∀ b ∈ a :: after, b.tookEffect →
            b.transition.time < v.interval.stop ∧ b.transition.cutsShort? ≠ some v.state) →
          v ∈ t.core.record.activities ∧ ∀ τ : Number, τ < v.interval.stop →
            t.core.record.powerState? = none →
            (∀ w ∈ t.core.record.masking v, ¬τ < w.interval.stop) →
              ∀ band threshold, t.core.record.stateOn t.core.table band threshold τ = .ok v.state := by
  refine ⟨course_steps i s, fun attempts s' hcourse => ?_⟩
  obtain ⟨t, ht, -, -, htrials⟩ := hcourse.trials hs
  refine ⟨t, ht, ?_⟩
  rintro before a after rfl
  obtain ⟨mid, hbefore, hafter⟩ := htrials.split
  have hmid := (hbefore.ordered ⟨Core.coherent_fresh config, Core.dated_fresh config⟩).1
  obtain ⟨rfl, -, hpart, -⟩ := hafter.of_cons
  obtain ⟨htable, hactivities⟩ := hafter.persists hmid
  refine ⟨⟨hpart.persistsIn hmid.2, fun v hv hlater hcut => ?_⟩, ⟨htable, ?_⟩, fun v hv hall => ?_⟩
  · exact hpart.mem_activities hv fun _ => ⟨hlater, hcut⟩
  · intro band threshold step hstep e he τ hτ hown
    obtain ⟨e', he', hle⟩ := htable band step e he
    rw [Record.stateOn_of_idle hown hstep, Option.mem_def.1 he', Option.any_some,
      decide_eq_true (Number.lt_of_lt_of_le hτ hle), if_pos rfl]
  · have hmem := hactivities v hv hall
    refine ⟨hmem, fun τ hτ hpower hmask band threshold => ?_⟩
    exact Record.stateOn_of_own (Record.ownState?_of_mem hmem hτ hpower hmask)

namespace Session

/-- A reception of a hundred units is masked by a switch of channels from ten to thirty. At forty it shows
again, on every band. -/
theorem reception_persists_under_switch :
    ∃ c a s t, Course 0 (firstUnder "radio") [c, a] s ∧ s.trackers[0]? = some t ∧
      [c, a].map Attempt.transition =
        [.receive 0 100 ⟨⟨0, 63⟩, none⟩, .retune 10 20 ⟨⟨0, 63⟩, none⟩] ∧
      t.core.record.ownState? 20 = some .switching ∧
      ∀ band threshold, t.core.record.stateOn t.core.table band threshold 40 = .ok .rx := by
  let xs : List Transition := [.receive 0 100 ⟨⟨0, 63⟩, none⟩, .retune 10 20 ⟨⟨0, 63⟩, none⟩]
  have hcourse := (Course.nil (i := 0) (s := firstUnder "radio")).attemptAll 1 xs
  have htransitions : (attemptAll 1 0 xs [] (firstUnder "radio")).1.map Attempt.transition = xs := by
    decide +kernel
  have hrecords : (attemptAll 1 0 xs [] (firstUnder "radio")).1.map (fun a => a.tracker.core.record.rx) =
      [{}, ⟨0, 100⟩] := by
    decide +kernel
  have hend : (attemptAll 1 0 xs [] (firstUnder "radio")).2.trackers[0]?.any (fun t =>
      t.core.record.ownState? 20 = some .switching ∧ t.core.record.powerState? = none ∧
        ∀ w ∈ t.core.record.masking ⟨⟨0, 100⟩, .rx⟩, ¬40 < w.interval.stop) = true := by
    decide +kernel
  obtain ⟨c, rest, hmade, hc, hrest⟩ := List.map_eq_cons_iff.1 htransitions
  obtain ⟨a, rest, rfl, ha, hrest⟩ := List.map_eq_cons_iff.1 hrest
  obtain rfl := List.map_eq_nil_iff.1 hrest
  rw [hmade] at hcourse hrecords
  obtain ⟨t, ht, hpersists⟩ := (starts_firstUnder "radio").activities_persist.2 _ _ hcourse
  rw [ht, Option.any_some, decide_eq_true_iff] at hend
  obtain ⟨hmasked, hpower, hmask⟩ := hend
  have hrx : a.tracker.core.record.rx = ⟨0, 100⟩ := (List.cons.inj (List.cons.inj hrecords).2).1
  have hmem : ⟨⟨0, 100⟩, .rx⟩ ∈ a.tracker.core.record.activities :=
    Record.mem_activities_iff.2 (Or.inr (Or.inr (by rw [hrx])))
  obtain ⟨-, -, hshows⟩ := hpersists [c] a [] rfl
  refine ⟨c, a, _, t, hcourse, ht, by rw [List.map_cons, List.map_singleton, hc, ha], hmasked, ?_⟩
  refine (hshows _ hmem ?_).2 40 (by decide +kernel) hpower hmask
  rw [List.forall_mem_singleton, ha]
  exact fun _ => ⟨by decide +kernel, by rintro ⟨⟩⟩

/-- It is not so that only the ends of receptions and transmissions cut an activity short. A switch of
channels that is to last until fifty is over by fifteen, if another one of five units begins at ten. -/
theorem switch_cut_short :
    ¬∀ attempts s, Course 0 (firstUnder "radio") attempts s → ∀ a ∈ attempts, a.Accepted →
      a.transition.cutsShort? ≠ some .rx →
      ∀ v ∈ a.tracker.core.record.activities, a.transition.time < v.interval.stop →
        ¬(v.state = .tx ∧ a.transition.cutsShort? = some .tx) →
          ∃ w ∈ a.coreAfter.record.activities, w.state = v.state ∧ v.interval.stop ≤ w.interval.stop := by
  intro hclaim
  let xs : List Transition := [.retune 0 50 ⟨⟨0, 63⟩, none⟩, .retune 10 5 ⟨⟨0, 63⟩, none⟩]
  have hcourse := (Course.nil (i := 0) (s := firstUnder "radio")).attemptAll 1 xs
  have hall : (attemptAll 1 0 xs [] (firstUnder "radio")).1.map (fun a =>
      (a.broken.isNone, a.plan.outcome.isOk, a.transition, a.tracker.core.record.switching,
        a.coreAfter.record.activities)) =
      [(true, true, .retune 0 50 ⟨⟨0, 63⟩, none⟩, {},
          [⟨⟨0, 50⟩, .switching⟩, ⟨{}, .tx⟩, ⟨{}, .rx⟩]),
        (true, true, .retune 10 5 ⟨⟨0, 63⟩, none⟩, ⟨0, 50⟩,
          [⟨⟨10, 15⟩, .switching⟩, ⟨{}, .tx⟩, ⟨{}, .rx⟩])] := by
    decide +kernel
  obtain ⟨c, rest, hmade, -, hrest⟩ := List.map_eq_cons_iff.1 hall
  obtain ⟨a, rest, rfl, ha, hrest⟩ := List.map_eq_cons_iff.1 hrest
  obtain rfl := List.map_eq_nil_iff.1 hrest
  rw [hmade] at hcourse
  simp only [Prod.mk.injEq] at ha
  obtain ⟨hbroken, hout, hx, hswitching, hafter⟩ := ha
  have hmem : ⟨⟨0, 50⟩, .switching⟩ ∈ a.tracker.core.record.activities :=
    Record.mem_activities_iff.2 (Or.inl (by rw [hswitching]))
  obtain ⟨w, hw, hstate, hle⟩ := hclaim _ _ hcourse a (by simp)
    ⟨Option.isNone_iff_eq_none.1 hbroken, Act.eq_ok_of_isOk hout⟩ (by rw [hx]; rintro ⟨⟩) _ hmem
    (by rw [hx]; decide +kernel) (by rintro ⟨⟨⟩, -⟩)
  rw [hafter] at hw
  simp only [List.mem_cons, List.not_mem_nil, or_false] at hw
  rcases hw with rfl | rfl | rfl
  · exact absurd hle (by decide +kernel)
  · cases hstate
  · cases hstate

end Session

end RadioOccupancy
