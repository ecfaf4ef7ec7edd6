import RadioOccupancy.Proofs.Effect
import RadioOccupancy.Proofs.Influence
import RadioOccupancy.Proofs.Sum

/-!
What is lost when an observer breaks off a transition.

    receive, fall asleep, ...    report  change  announce |
    wake up, power on            report  change  announce |  busy  announce |
    detect energy                report  busy    announce |  stamped

Once a transition has reported, most have made all their changes before they tell observers anything, so an
observer that fails only keeps others from being told. Three have not: waking up and powering on record
energy after listeners have been told, and a detection of energy notes its time (`Transition.postponed`).
What they have left to do is lost if an observer fails, and only that (`Transition.alike_iff_not_postpones`).
-/

namespace RadioOccupancy

namespace BusyTable

/-- The latest busy period is not the one that was known. -/
theorem put_ne_of_isLatest (t : BusyTable) (band : Band) (step : Number) {now duration : Number}
    (hnow : now.isTime) (hd : duration.isTime)
    (h : (detectionBeside (t.find? band step) band step now duration).isLatest = true) :
    t.put (detectionBeside (t.find? band step) band step now duration).entry ≠ t := by
  intro heq
  have hfound := find?_put t (detectionBeside (t.find? band step) band step now duration).entry band step
  rw [heq, if_pos (isFor_beside ..)] at hfound
  rcases entry_beside (t.find? band step) band step now duration with ⟨-, hnot⟩ | ⟨⟨-, -, hend⟩, -⟩
  · rw [hnot] at h
    cases h
  · have hnan : (now + duration).isNaN = false := (Number.le_iff_rank.1 (Number.le_add hnow hd)).2.1
    generalize hentry : (detectionBeside (t.find? band step) band step now duration).entry = e at *
    rw [hfound, detectionBeside] at h
    rw [hend, if_pos (Number.le_refl_of_not_isNaN hnan)] at h
    cases h

end BusyTable

/-- The record, the busy table and the count of sub-frames are the same. -/
structure Core.Alike (core core' : Core) : Prop where
  record : core.record = core'.record
  table : core.table = core'.table
  mpdus : core.mpdus = core'.mpdus

theorem Core.Alike.refl (core : Core) : core.Alike core :=
  ⟨rfl, rfl, rfl⟩

namespace Transition
open Planning

variable {config : Config} {core : Core} {x : Transition}

/-- Nobody is told anything in the steps. -/
def Silent (steps : List Step) : Prop :=
  ∀ ns, .announce ns ∉ steps

theorem Silent.append {steps more : List Step} (h : Silent steps) (h' : Silent more) :
    Silent (steps ++ more) := by
  intro ns hns
  rcases List.mem_append.1 hns with hns | hns
  · exact h ns hns
  · exact h' ns hns

theorem Silent.ne {steps before after : List Step} (h : Silent steps) (ns : List Notice) :
    steps ≠ before ++ .announce ns :: after := by
  rintro rfl
  exact h ns (by simp)

/-- An announcement is the first one, or comes later. -/
theorem announce_cases {before more first after : List Step} {ms ns : List Notice}
    (hbefore : Silent before) (h : before ++ .announce ms :: more = first ++ .announce ns :: after) :
    (first = before ∧ ns = ms ∧ after = more) ∨
      ∃ later, first = before ++ .announce ms :: later ∧ more = later ++ .announce ns :: after := by
  rw [List.append_eq_append_iff] at h
  rcases h with ⟨later, rfl, h⟩ | ⟨later, rfl, h⟩
  · cases later with
    | nil =>
      obtain ⟨hms, rfl⟩ := List.cons.inj h
      exact Or.inl ⟨List.append_nil _, (Step.announce.inj hms).symm, rfl⟩
    | cons step later =>
      obtain ⟨rfl, rfl⟩ := List.cons.inj h
      exact Or.inr ⟨later, rfl, rfl⟩
  · cases later with
    | nil =>
      obtain ⟨hns, rfl⟩ := List.cons.inj h
      exact Or.inl ⟨(List.append_nil _).symm, Step.announce.inj hns, rfl⟩
    | cons step later =>
      obtain ⟨rfl, -⟩ := List.cons.inj h
      exact absurd (by simp) (hbefore ns)

/-- What a transition still has to do after an announcement that is no report. -/
def postponed (config : Config) (core : Core) (ns : List Notice) : Transition → List Step
  | .detectEnergy now .. => [.change (.stamped now)]
  | .wakeUp now duration on isPrimary =>
    if ns = [.listeners ⟨.wakeup, []⟩] ∧ 0 < duration then
      core.senseDeeds config now duration on isPrimary
    else []
  | .powerOn now duration on isPrimary =>
    if ns = [.listeners ⟨.on, []⟩] ∧ 0 < duration then
      core.senseDeeds config now duration on isPrimary
    else []
  | _ => []

/-- Energy that would be recorded makes a later end of the busy period of its band. -/
def Prolongs (config : Config) (core : Core) (now duration : Number) (on : Sensing) : Prop :=
  ∃ found, core.table.detection on.band (on.thresholdIn config) now duration = .ok found ∧
    found.isLatest = true

/-- The transition has a change left to make after an announcement that is no report. -/
def Postpones (config : Config) (core : Core) (ns : List Notice) : Transition → Prop
  | .detectEnergy now .. => core.record.lastChange ≠ now
  | .wakeUp now duration on _ =>
    ns = [.listeners ⟨.wakeup, []⟩] ∧ 0 < duration ∧ Prolongs config core now duration on
  | .powerOn now duration on _ =>
    ns = [.listeners ⟨.on, []⟩] ∧ 0 < duration ∧ Prolongs config core now duration on
  | _ => False

/-- An announcement that is no report comes after all reports. -/
theorem enactDeeds_of_announce {ns : List Notice} {before after : List Step}
    (hns : ns.filterMap Notice.stateChange? = [])
    (h : x.deeds config core = before ++ .announce ns :: after) :
    ∃ first, before = x.reportDeeds config core ++ first ∧
      x.enactDeeds config core = first ++ .announce ns :: after := by
  rw [deeds, List.append_eq_append_iff] at h
  rcases h with ⟨first, rfl, henact⟩ | ⟨reports, hreport, hrest⟩
  · exact ⟨first, rfl, henact⟩
  · cases reports with
    | nil =>
      rw [List.append_nil] at hreport
      exact ⟨[], by rw [hreport, List.append_nil], hrest.symm⟩
    | cons step reports =>
      obtain ⟨rfl, -⟩ := List.cons.inj hrest
      rcases mem_reportDeeds (hreport ▸ List.mem_append_right _ List.mem_cons_self) with
        ⟨t, ht⟩ | ⟨s, hs⟩
      · cases ht
      · obtain rfl := Step.announce.inj hs
        cases hns

/-- Energy with a threshold that cannot be used is not recorded. -/
theorem senseDeeds_of_unusable {on : Sensing} (h : ¬on.IsUsable config core) (now duration : Number)
    (isPrimary : Bool) : core.senseDeeds config now duration on isPrimary = [] := by
  rw [Core.senseDeeds, detection_eq]
  cases hstep : Threshold.step (on.thresholdIn config) core.table.resolution with
  | ok step => exact absurd ⟨step, hstep⟩ h
  | error r => rfl

/-- Of energy nobody is told, or listeners are told last. -/
theorem senseDeeds_cases (config : Config) (core : Core) (now duration : Number) (on : Sensing)
    (isPrimary : Bool) :
    Silent (core.senseDeeds config now duration on isPrimary) ∨
      ∃ before remaining, Silent before ∧ core.senseDeeds config now duration on isPrimary =
        before ++ [.announce [.listeners ⟨.ccaBusyStart, [remaining]⟩]] := by
  rw [Core.senseDeeds]
  split
  · next found _ =>
    have hbusy : Silent (if found.isLatest then [Step.change (.busy found.entry)] else []) := by
      split <;> simp [Silent]
    dsimp only
    generalize (if found.isLatest then [Step.change (.busy found.entry)] else []) = busy at *
    split
    · exact Or.inr ⟨_, _, hbusy, rfl⟩
    · rw [List.append_nil]
      exact Or.inl hbusy
  · exact Or.inl (by simp [Silent])

/-- A change is not told. -/
theorem silent_change (c : Change) : Silent [.change c] := by simp [Silent]

/-- The deeds of a radio that comes up: listeners are told of it, and then energy is recorded. -/
def upDeeds (config : Config) (core : Core) (c : Change) (call : ListenerMethod) (now duration : Number)
    (on : Sensing) (isPrimary : Bool) : List Step :=
  [.change c, .announce [.listeners ⟨call, []⟩]] ++
    if 0 < duration then core.senseDeeds config now duration on isPrimary else []

/-- A radio that comes up has the energy left to record when listeners have been told of it. -/
theorem after_of_upDeeds {c : Change} {call : ListenerMethod} {now duration : Number} {on : Sensing}
    {isPrimary : Bool} {ns : List Notice} {first after : List Step}
    (h : upDeeds config core c call now duration on isPrimary = first ++ .announce ns :: after) :
    after = if ns = [.listeners ⟨call, []⟩] ∧ 0 < duration then
      core.senseDeeds config now duration on isPrimary else [] := by
  rcases announce_cases (silent_change c) h with ⟨-, rfl, rfl⟩ | ⟨later, -, hlater⟩
  · simp
  · split at hlater
    · rcases senseDeeds_cases config core now duration on isPrimary with hs | ⟨before, remaining, hb, hs⟩
      · exact absurd hlater (hs.ne _)
      · rw [hs] at hlater
        rcases announce_cases hb hlater with ⟨-, rfl, rfl⟩ | ⟨last, -, hnil⟩
        · simp
        · cases last <;> cases hnil
    · cases later <;> cases hlater

/-- What comes after an announcement that is no report. -/
theorem postponed_of_announce {ns : List Notice} {first after : List Step}
    (h : x.enactDeeds config core = first ++ .announce ns :: after) :
    after = x.postponed config core ns := by
  have hpair : ∀ {c ms}, [Step.change c, .announce ms] = first ++ .announce ns :: after → after = [] := by
    intro c ms h
    rcases announce_cases (silent_change c) h with ⟨-, -, rfl⟩ | ⟨later, -, hnil⟩
    · rfl
    · cases later <;> cases hnil
  cases x with
  | transmit | receive | retune | completeReception | loseReception | fallAsleep | powerOff =>
    exact hpair h
  | abortReception now failure =>
    cases failure with
    | true => exact hpair h
    | false => exact absurd h ((silent_change _).ne _)
  | continueReception => exact absurd h ((silent_change _).ne _)
  | flush => cases first <;> cases h
  | detectEnergy now duration on isPrimary =>
    rcases senseDeeds_cases config core now duration on isPrimary with hs | ⟨before, remaining, hb, hs⟩
    · exact absurd h ((hs.append (silent_change _)).ne _)
    · rw [enactDeeds, hs, List.append_assoc] at h
      rcases announce_cases hb h with ⟨-, -, rfl⟩ | ⟨later, -, hlater⟩
      · rfl
      · exact absurd hlater ((silent_change _).ne _)
  | wakeUp | powerOn => exact after_of_upDeeds h

/-- With a threshold that cannot be used, nothing is left to do. -/
theorem postponed_of_unusable {ns : List Notice} {first after : List Step} {on : Sensing}
    (hon : on ∈ x.sensing?) (hun : ¬on.IsUsable config core)
    (h : x.enactDeeds config core = first ++ .announce ns :: after) :
    x.postponed config core ns = [] := by
  cases x with
  | detectEnergy now duration on' isPrimary =>
    obtain rfl := Option.mem_some_iff.1 hon
    rw [enactDeeds, senseDeeds_of_unusable hun] at h
    exact absurd h ((silent_change _).ne _)
  | wakeUp now duration on' isPrimary | powerOn now duration on' isPrimary =>
    obtain rfl := Option.mem_some_iff.1 hon
    rw [postponed, senseDeeds_of_unusable hun, ite_self]
  | _ => rfl

/-- A transition that announces more than its report does all its deeds. -/
theorem deeds_of_announced {ns : List Notice} {before after : List Step}
    (hp : x.Permitted config core) (hns : ns.filterMap Notice.stateChange? = [])
    (h : deedsOf (x.plan config core).steps = before ++ .announce ns :: after) :
    x.deeds config core = before ++ .announce ns :: after := by
  obtain ⟨⟨more, hmore⟩, hall⟩ := x.deeds_plan config core
  by_cases hon : ∀ on ∈ x.sensing?, on.IsUsable config core
  · rw [← h, hall (plan_of_permitted hp hon).1]
  · push Not at hon
    obtain ⟨on, hon, hun⟩ := hon
    have hdeeds : x.deeds config core = before ++ .announce ns :: (after ++ more) := by
      rw [← hmore, h]
      simp
    obtain ⟨first, -, henact⟩ := enactDeeds_of_announce hns hdeeds
    have hnone := postponed_of_announce henact
    rw [postponed_of_unusable hon hun henact, List.append_eq_nil_iff] at hnone
    rw [hdeeds, hnone.2, List.append_nil]

/-- Recording energy changes something if it prolongs a busy period. -/
theorem alike_sense_iff {before : Core} {now duration : Number} {on : Sensing} {isPrimary : Bool}
    (hnow : now.isTime) (hd : duration.isTime) (htable : before.table = core.table) :
    before.Alike (coreAfter (core.senseDeeds config now duration on isPrimary) before) ↔
      ¬Prolongs config core now duration on := by
  rw [Core.senseDeeds, Prolongs, detection_eq]
  cases Threshold.step (on.thresholdIn config) core.table.resolution with
  | error r => simpa [Except.map] using Core.Alike.refl before
  | ok step =>
    have hlatest := core.table.put_ne_of_isLatest on.band step hnow hd
    dsimp only [Except.map]
    generalize BusyTable.detectionBeside (core.table.find? on.band step) on.band step now duration = found
      at *
    cases hl : found.isLatest with
    | false => simpa [hl] using Core.Alike.refl before
    | true =>
      refine ⟨fun halike => absurd ?_ (hlatest hl), fun hnot => absurd ⟨found, rfl, hl⟩ hnot⟩
      have htables := halike.table
      rw [if_pos rfl, coreAfter_append, htable] at htables
      refine Eq.trans ?_ htables.symm
      split
      · exact congrArg (BusyTable.put · found.entry) htable.symm
      · exact congrArg (BusyTable.put · found.entry) htable.symm

/-- A radio that comes up loses energy that prolongs a busy period when listeners have been told of it, and
nothing later. -/
theorem alike_up_iff {c : Change} {call : ListenerMethod} {now duration : Number} {on : Sensing}
    {isPrimary : Bool} {ns : List Notice} {first after : List Step} {before : Core} (hnow : now.isTime)
    (hd : duration.isTime) (htable : (c.apply before).table = core.table)
    (h : upDeeds config core c call now duration on isPrimary = first ++ .announce ns :: after) :
    (coreAfter first before).Alike (coreAfter after (coreAfter first before)) ↔
      ¬(ns = [.listeners ⟨call, []⟩] ∧ 0 < duration ∧ Prolongs config core now duration on) := by
  have hafter := after_of_upDeeds h
  by_cases hlate : ns = [.listeners ⟨call, []⟩] ∧ 0 < duration
  · obtain ⟨hcall, hpos⟩ := hlate
    rw [if_pos ⟨hcall, hpos⟩] at hafter
    rw [upDeeds, if_pos hpos, hafter, List.append_cons first] at h
    have hfirst : (coreAfter first before).table = core.table := by
      have htold := congrArg (coreAfter · before) (List.append_inj' h rfl).1
      rw [coreAfter_append first] at htold
      exact (congrArg Core.table htold).symm.trans htable
    rw [hafter, alike_sense_iff hnow hd hfirst]
    exact not_congr ⟨fun h => ⟨hcall, hpos, h⟩, fun h => h.2.2⟩
  · rw [if_neg hlate] at hafter
    rw [hafter]
    exact ⟨fun _ hlate' => hlate ⟨hlate'.1, hlate'.2.1⟩, fun _ => .refl _⟩

/-- A detection of energy has its time left to note when listeners have been told of it. -/
theorem alike_detect_iff {now duration : Number} {on : Sensing} {isPrimary : Bool} {ns : List Notice}
    {first after : List Step} {before : Core} (hrecord : before.record = core.record)
    (h : (detectEnergy now duration on isPrimary).enactDeeds config core =
      first ++ .announce ns :: after) :
    (coreAfter first before).Alike (coreAfter after (coreAfter first before)) ↔
      core.record.lastChange = now := by
  have hafter : after = [.change (.stamped now)] := postponed_of_announce h
  rw [enactDeeds, hafter, List.append_cons first] at h
  have hsense := (List.append_inj' h rfl).1
  have hfirst : (coreAfter first before).record = core.record := by
    rw [record_of_writeRecord (writeRecord_of_isPrefix ⟨_, hsense.symm⟩ (writeRecord_senseDeeds ..)), hrecord]
  generalize coreAfter first before = told at hfirst ⊢
  rw [hafter, ← hfirst]
  constructor
  · intro halike
    exact congrArg Record.lastChange halike.record
  · intro hnow
    exact ⟨by rw [← hnow]; rfl, rfl, rfl⟩

/-- What a transition still has to do after an announcement that is no report changes something if it
postpones something. -/
theorem alike_iff_not_postpones {ns : List Notice} {before after : List Step}
    (hp : x.Permitted config core) (hns : ns.filterMap Notice.stateChange? = [])
    (h : x.deeds config core = before ++ .announce ns :: after) :
    (coreAfter before core).Alike (coreAfter after (coreAfter before core)) ↔
      ¬x.Postpones config core ns := by
  obtain ⟨first, rfl, henact⟩ := enactDeeds_of_announce hns h
  have hdur := isTime_of_duration? hp.arguments
  rw [coreAfter_append, coreAfter_reportDeeds]
  cases x with
  | detectEnergy now duration on isPrimary =>
    rw [Postpones, not_not]
    exact alike_detect_iff rfl henact
  | wakeUp now duration on isPrimary =>
    exact alike_up_iff (c := .awake now) hp.time (hdur _ rfl) rfl henact
  | powerOn now duration on isPrimary =>
    exact alike_up_iff (c := .poweredOn now) hp.time (hdur _ rfl) rfl henact
  | _ =>
    have hafter : after = [] := postponed_of_announce henact
    rw [hafter]
    exact ⟨fun _ hlost => hlost, fun _ => .refl _⟩

end Transition

namespace Act

variable {i : Nat} {respond : Respond} {s s₁ s₂ : Session} {t : Tracker} {x : Transition}
  {done rest : List Step} {ns : List Notice} {e : Fault}

/-- A request for a transition fails with an observer that fails in one of its announcements. -/
theorem ran_transition_of_cut (ht : s.trackers[i]? = some t)
    (hsteps : (t.plan x).steps = done ++ .announce ns :: rest)
    (hdone : (carryOutSteps respond i done).ran s = (.ok (), s₁))
    (hcut : (announce respond i ns).ran s₁ = (.error e, s₂)) :
    (performOnTracker respond i (.transition x)).ran s = (.error e, s₂) := by
  have hrest : (carryOutSteps respond i (.announce ns :: rest)).ran s₁ = (.error e, s₂) := by
    rw [carryOutSteps, ran_bind, carryOutStep, hcut]
    rfl
  rw [performOnTracker, ran_bind, ran_tracker ht, onward, ran_bind, carryOut, ran_bind, hsteps,
    carryOutSteps_append, ran_bind, hdone, onward, hrest]
  rfl

/-- An observer fails when a transition has reported. What the tracker remembers afterwards is the same as if
no observer fails, just when the transition has no change left to make after the announcement. -/
theorem interruption_loses_nothing_iff {depth depth' : Nat} {s' s₃ : Session} {t' : Tracker}
    (ht : s.trackers[i]? = some t) (hsteps : (t.plan x).steps = done ++ .announce ns :: rest)
    (hns : ns.filterMap Notice.stateChange? = [])
    (hdone : (carryOutSteps (Act.respond depth) i done).ran s = (.ok (), s₁))
    (hcut : (announce (Act.respond depth) i ns).ran s₁ = (.error e, s₂))
    (ht' : s'.trackers[i]? = some t') (hsame : t'.unobserved = t.unobserved)
    (hcall : (carryOutSteps (Act.respond depth') i (t'.plan x).steps).ran s' = (.ok (), s₃)) :
    (performOnTracker (Act.respond depth) i (.transition x)).ran s = (.error e, s₂) ∧
      ∃ u v, s₂.trackers[i]? = some u ∧ s₃.trackers[i]? = some v ∧
        (u.core.Alike v.core ↔ ¬x.Postpones t.config t.core ns) := by
  refine ⟨ran_transition_of_cut ht hsteps hdone hcut, ?_⟩
  obtain ⟨t₁, ht₁, hk₁⟩ := keeps_carryOutSteps (sparing_respond depth) ht hdone
  obtain ⟨u, hu, hk⟩ := keeps_announce (sparing_respond depth) ns ht₁
  rw [hcut] at hu
  obtain ⟨v, hv, hk'⟩ := keeps_carryOutSteps (sparing_respond depth') ht' hcall
  refine ⟨u, v, hu, hv, ?_⟩
  -- both trackers set out from the same, with the same plan
  have hplan : t'.plan x = t.plan x := by
    rw [← t'.plan_unobserved x, hsame, t.plan_unobserved x]
  have hcore : t'.core = t.core := by
    simpa [Tracker.unobserved] using congrArg Tracker.core hsame
  rw [hk.core, hk₁.core, hk'.core, hplan, hcore, hsteps, coreAfter_append, coreAfter_announce]
  have hdeeds : deedsOf (t.plan x).steps = deedsOf done ++ .announce ns :: deedsOf rest := by
    rw [hsteps, deedsOf_append]
    rfl
  rcases t.deeds_plan x with hnil | ⟨hfree, hp, -⟩
  · rw [hnil] at hdeeds
    exact absurd hdeeds.symm (by simp)
  · have hplan' : t.plan x = x.plan t.config t.core := by rw [Tracker.plan, hfree]
    rw [hplan'] at hdeeds
    have hiff := Transition.alike_iff_not_postpones hp hns (Transition.deeds_of_announced hp hns hdeeds)
    rwa [coreAfter_deedsOf, coreAfter_deedsOf] at hiff

/-- A listener fails when it hears of a reception. The reception has begun, as it does if the listener does
not fail. -/
theorem reception_survives_interruption :
    ∃ s s' s₂ s₃ u v e,
      (performOnTracker (Act.respond 1) 0 (.transition (.receive 0 50 ⟨⟨0, 63⟩, none⟩))).ran s =
          (.error e, s₂) ∧
        (carryOutSteps (Act.respond 1) 0
          ((Tracker.first {}).plan (.receive 0 50 ⟨⟨0, 63⟩, none⟩)).steps).ran s' = (.ok (), s₃) ∧
        s₂.trackers[0]? = some u ∧ s₃.trackers[0]? = some v ∧ v.core.record.receiving = true ∧
          u.core.Alike v.core := by
  have hsteps : ((Tracker.first {}).plan (.receive 0 50 ⟨⟨0, 63⟩, none⟩)).steps =
      [.change (.receiving 0 50)] ++ [.announce [.listeners ⟨.rxStart, [50]⟩]] := by
    rfl
  let t : Tracker := { Tracker.first {} with listeners := .register {} "mac" }
  let x : Transition := .receive 0 50 ⟨⟨0, 63⟩, none⟩
  let ns : List Notice := [.listeners ⟨.rxStart, [50]⟩]
  let s' : Session := { trackers := #[t] }
  let s := s'.setScript "mac" "onRxStart" [⟨.raise "not ready", true⟩]
  let s₁ := ((carryOutSteps (Act.respond 1) 0 [.change (.receiving 0 50)]).ran s).2
  let s₃ := ((carryOutSteps (Act.respond 1) 0 (t.plan x).steps).ran s').2
  have hfails : ((announce (Act.respond 1) 0 ns).ran s₁).1.isOk = false := by decide
  have hsucceeds : ((carryOutSteps (Act.respond 1) 0 (t.plan x).steps).ran s').1.isOk = true := by
    decide
  have hreceives : (s₃.trackers[0]?.any fun v => v.core.record.receiving) = true := by decide
  rcases hcut : (announce (Act.respond 1) 0 ns).ran s₁ with ⟨e | ⟨⟩, s₂⟩
  · have hcall := ok_of_isOk hsucceeds
    obtain ⟨hran, u, v, hu, hv, halike⟩ := interruption_loses_nothing_iff (s := s) (t := t) rfl
      hsteps rfl rfl hcut (rfl : s'.trackers[0]? = some t) rfl hcall
    rw [hv] at hreceives
    exact ⟨s, s', s₂, s₃, u, v, e, hran, hcall, hu, hv, hreceives, halike.2 fun hlost => hlost⟩
  · rw [hcut] at hfails
    cases hfails

end Act

/-- A listener fails when it hears that the radio has woken up, or that energy was detected. The energy that
the radio wakes up to is never recorded, and neither is the time of the detection. -/
theorem Session.energy_lost_to_interruption :
    let on : Sensing := ⟨⟨0, 63⟩, none⟩
    let heard : List Request := [.tracker "radio" (.register "mac")]
    let fails : String → Request := fun occasion => .script "mac" occasion [⟨.raise "not ready", true⟩]
    let asleep : List Request := heard ++ [.tracker "radio" (.transition (.fallAsleep 10 on))]
    let wakeUp : Request := .tracker "radio" (.transition (.wakeUp 30 5 on true))
    let detect : Request := .tracker "radio" (.transition (.detectEnergy 30 5 on true))
    let table : List Request → Option BusyTable := fun rs =>
      ((firstUnder "radio").after rs).trackers[0]?.map fun t => t.core.table
    let record : List Request → Option Record := fun rs =>
      ((firstUnder "radio").after rs).trackers[0]?.map fun t => t.core.record
    table (asleep ++ [fails "onWakeup", wakeUp]) ≠ table (asleep ++ [wakeUp]) ∧
      record (heard ++ [fails "onCcaBusyStart", detect]) ≠ record (heard ++ [detect]) := by
  decide +kernel

end RadioOccupancy
