import RadioOccupancy.Proofs.Bursts
import RadioOccupancy.Proofs.BusyEdge
import RadioOccupancy.Proofs.Clock
import RadioOccupancy.Proofs.Refusal
import RadioOccupancy.Proofs.Session.History

/-!
What the busy table has heard in a history of calls.

    calls     detect 10 5    detect 20 5     wake up 30 8    detect 50 0
              accepted       refused         refused late    accepted
    heard     10 .. 15                                       50 .. 50

A call that is accepted has the table hear the energy that it is there to record. One that is refused leaves
the table alone, even if it has woken the radio or moved the cursor by then: what cannot be recorded is not
set (`Call.table_coreAfter`). So after any history the table has heard the bursts of those calls that were
accepted (`History.heard`). Nothing is asked of the thresholds of the calls for that, as a burst is recorded
only at one that can be used (`Tracker.isUsable_of_accepted`).
-/

namespace RadioOccupancy

/-! ### The energy that calls record -/

/-- The energy that a transition records, if it does. -/
def Transition.burst? (config : Config) : Transition → Option Burst
  | .detectEnergy now duration on _ => some ⟨on.band, on.thresholdIn config, now, duration⟩
  | .wakeUp now duration on _ | .powerOn now duration on _ =>
    if 0 < duration then some ⟨on.band, on.thresholdIn config, now, duration⟩ else none
  | _ => none

/-- The energy that was recorded by those of the calls that were accepted. -/
def burstsOf (config : Config) (calls : List Call) : List Burst :=
  (calls.filter fun c => c.Accepted).filterMap fun c => c.transition.burst? config

theorem burstsOf_snoc (config : Config) (calls : List Call) (c : Call) :
    burstsOf config (calls ++ [c]) =
      burstsOf config calls ++ if c.Accepted then (c.transition.burst? config).toList else [] := by
  rw [burstsOf, List.filter_append, List.filterMap_append, burstsOf]
  split
  · next h =>
    rw [List.filter_singleton, decide_eq_true h, cond_true]
    cases hb : c.transition.burst? config <;> simp [hb]
  · next h => simp [h]

namespace Transition

variable {config : Config} {core : Core} {x : Transition} {b : Burst} {on : Sensing}

/-- A transition that records energy does so for its duration, and writes to the record as well. -/
theorem of_recordsOn? (h : on ∈ x.recordsOn?) :
    (∃ d ∈ x.duration?, ∀ config, x.burst? config = some ⟨on.band, on.thresholdIn config, x.time, d⟩) ∧
      ∃ c, x.update? = some c := by
  cases x with
  | detectEnergy now duration on' =>
    obtain rfl := Option.mem_some_iff.1 h
    exact ⟨⟨duration, rfl, fun _ => rfl⟩, _, rfl⟩
  | wakeUp now duration on' | powerOn now duration on' =>
    rw [recordsOn?] at h
    split at h
    · next hpos =>
      obtain rfl := Option.mem_some_iff.1 h
      exact ⟨⟨duration, rfl, fun _ => if_pos hpos⟩, _, rfl⟩
    · cases h
  | _ => cases h

/-- Energy is recorded on the band of the transition and from its time on. -/
theorem of_burst? (h : b ∈ x.burst? config) :
    ∃ on ∈ x.recordsOn?, ∃ d ∈ x.duration?, b = ⟨on.band, on.thresholdIn config, x.time, d⟩ := by
  cases x with
  | detectEnergy now duration on => exact ⟨on, rfl, duration, rfl, (Option.some.inj h).symm⟩
  | wakeUp now duration on | powerOn now duration on =>
    rw [burst?] at h
    split at h
    · next hpos => exact ⟨on, if_pos hpos, duration, rfl, (Option.some.inj h).symm⟩
    · cases h
  | _ => cases h

/-- The deeds of a transition that records energy leave the table with what was detected. -/
theorem table_deeds {duration step : Number} (hon : on ∈ x.recordsOn?) (hd : x.duration? = some duration)
    (hstep : Threshold.step (on.thresholdIn config) core.table.resolution = .ok step) :
    (coreAfter (x.deeds config core) core).table = core.table.detected on.band step x.time duration := by
  have hreport : (coreAfter (x.reportDeeds config core) core).table = core.table := by
    rw [coreAfter_reportDeeds]
  rw [deeds, coreAfter_append, table_coreAfter hreport]
  cases x with
  | detectEnergy now duration on' isPrimary =>
    obtain rfl := Option.some.inj hon
    obtain rfl := Option.some.inj hd
    rw [enactDeeds, coreAfter_append]
    exact Core.table_senseDeeds isPrimary hstep
  | wakeUp now duration on' isPrimary | powerOn now duration on' isPrimary =>
    obtain rfl := Option.some.inj hd
    rw [recordsOn?] at hon
    split at hon
    · next hpos =>
      obtain rfl := Option.some.inj hon
      rw [enactDeeds, if_pos hpos, coreAfter_append]
      exact (table_coreAfter (by rfl) _).trans (Core.table_senseDeeds isPrimary hstep)
    · cases hon
  | _ => cases hon

end Transition

/-- Steps that set no busy entry leave the table alone. -/
theorem table_of_forall_ne {steps : List Step} (h : ∀ entry, Step.change (.busy entry) ∉ steps)
    (core : Core) : (coreAfter steps core).table = core.table := by
  have hthroughout : Throughout (fun core' => core'.table = core.table) steps core :=
    .of_changes rfl fun c hc core' htable => by
      cases c with
      | busy entry => exact absurd hc (h entry)
      | _ => exact htable
  exact hthroughout.last

namespace Tracker

variable {t : Tracker} {x : Transition}

/-- An accepted transition that records energy has a threshold that can be used. -/
theorem isUsable_of_accepted (h : (t.plan x).outcome = .ok ()) {on : Sensing} (hon : on ∈ x.recordsOn?) :
    on.IsUsable t.config t.core := by
  obtain ⟨hfree, hp⟩ := permitted_of_accepted h
  by_contra hun
  obtain ⟨r, hstep⟩ := Transition.step_error_of_not_isUsable hun
  obtain ⟨core', ns, hdraws, -⟩ := (Planning.draws_unusable hp (x.sensing?_of_recordsOn? hon) hstep).2
    (Or.inr (Option.isSome_iff_exists.2 ⟨on, hon⟩))
  rw [plan_of_free hfree, Transition.plan_eq,
    (((Planning.checks_body x).1 hp).bind (f := fun _ => _) hdraws).plan.1] at h
  cases h

/-- A tracker that does set a busy entry accepts the transition. -/
theorem accepted_of_mem {entry : BusyEntry} (h : .change (.busy entry) ∈ deedsOf (t.plan x).steps) :
    (t.plan x).outcome = .ok () := by
  rcases t.deeds_plan x with hnil | ⟨hfree, hp, hpre⟩
  · rw [hnil] at h
    cases h
  · obtain ⟨on, hon, step, -, hstep, -⟩ := Transition.beside_of_mem_deeds hp (hpre.subset h)
    rw [plan_of_free hfree]
    refine (Transition.plan_of_permitted hp fun on' hon' => ?_).1
    obtain rfl := Option.mem_unique hon' (x.sensing?_of_recordsOn? hon)
    exact ⟨step, hstep⟩

end Tracker

/-! ### Histories -/

namespace Call

variable {c : Call}

/-- A call is an attempt in which no observer fails. -/
def attempt (c : Call) : Attempt where
  tracker := c.tracker
  transition := c.transition
  done := c.plan.steps
  broken := none

theorem isPart_attempt (c : Call) : c.attempt.IsPart := rfl

/-- After a call the table has heard the energy that this records, if it was accepted. -/
theorem table_coreAfter (c : Call) :
    c.coreAfter.table = c.tracker.core.table.heard
      (if c.Accepted then (c.transition.burst? c.tracker.config).toList else []) := by
  change (RadioOccupancy.coreAfter c.plan.steps c.tracker.core).table = _
  rw [← coreAfter_deedsOf]
  split
  · next ha =>
    obtain ⟨hp, hdeeds⟩ := Tracker.deeds_plan_of_accepted ha
    rw [plan, hdeeds]
    cases hon : c.transition.recordsOn? with
    | some on =>
      obtain ⟨⟨d, hd, hburst⟩, -⟩ := Transition.of_recordsOn? hon
      obtain ⟨step, hstep⟩ := Tracker.isUsable_of_accepted ha hon
      rw [Transition.table_deeds hon hd hstep, hburst, (Threshold.of_step hstep).2]
      rfl
    | none =>
      have hnone : ∀ on, on ∉ c.transition.recordsOn? := fun on hmem => by
        rw [hon] at hmem
        cases hmem
      have hburst : c.transition.burst? c.tracker.config = none :=
        Option.eq_none_iff_forall_not_mem.2 fun b hb =>
          (Transition.of_burst? hb).elim fun on h => hnone on h.1
      rw [hburst]
      refine table_of_forall_ne (fun entry hmem => ?_) _
      obtain ⟨on, hmem, -⟩ := Transition.beside_of_mem_deeds hp hmem
      exact hnone on hmem
  · next hrefused =>
    exact table_of_forall_ne (fun entry hmem => hrefused (Tracker.accepted_of_mem hmem)) _

/-- A table can add up what an accepted call records. -/
theorem Accepted.exact (h : c.Accepted) (hsum : c.transition.SumsExactly) :
    ∀ b ∈ c.transition.burst? c.tracker.config,
      b.Exact ∧ b.now.value = c.coreAfter.record.lastChange.value := by
  intro b hb
  obtain ⟨on, hon, d, hd, rfl⟩ := Transition.of_burst? hb
  obtain ⟨hp, hcore⟩ := c.isPart_attempt.of_accepted ⟨rfl, h⟩
  obtain ⟨step, hstep⟩ := Tracker.isUsable_of_accepted h hon
  have hdur := Transition.isTime_of_duration? hp.arguments d hd
  refine ⟨⟨(Threshold.of_step hstep).1, Number.isFinite_of_isTime hp.time, hdur, hsum d hd hp.time hdur⟩, ?_⟩
  obtain ⟨-, change, hchange⟩ := Transition.of_recordsOn? hon
  rw [show c.coreAfter = c.attempt.coreAfter from rfl, hcore]
  change _ = (RadioOccupancy.coreAfter (c.transition.deeds c.tracker.config _) _).record.lastChange.value
  rw [Transition.record_deeds hchange, Transition.lastChange_of_update? hchange]

end Call

namespace History

variable {config : Config} {start core : Core} {calls : List Call}

/-- The calls of a history are trials. -/
theorem trials (h : History config start calls core) : Trials config start (calls.map Call.attempt) core := by
  induction h with
  | nil => exact .nil
  | @snoc calls c h hconfig hfree ih =>
    rw [List.map_append]
    exact .snoc (a := c.attempt) ih hconfig c.isPart_attempt

/-- What calls recorded can be added up, it came in the order of time, and the table has heard it all. -/
theorem heard (h : History config (.fresh config) calls core)
    (hsum : ∀ c ∈ calls, c.transition.SumsExactly) :
    (∀ b ∈ burstsOf config calls, b.Exact ∧ b.now.value ≤ core.record.lastChange.value) ∧
      Burst.InOrder (burstsOf config calls) ∧
        core.table = (Core.fresh config).table.heard (burstsOf config calls) := by
  induction h with
  | nil => exact ⟨fun b hb => by simp [burstsOf] at hb, List.Pairwise.nil, rfl⟩
  | @snoc calls c h hconfig hfree ih =>
    obtain ⟨hsum, hc⟩ := List.forall_mem_append.1 hsum
    obtain ⟨hall, hsorted, htable⟩ := ih hsum
    have hcoherent := h.trials.keeps_coherent.1
    have hlast : c.tracker.core.record.lastChange.value ≤ c.coreAfter.record.lastChange.value :=
      c.isPart_attempt.lastChange_le hcoherent
    have hbefore : ∀ b ∈ burstsOf config calls, b.now.value ≤ c.coreAfter.record.lastChange.value :=
      fun b hb => (hall b hb).2.trans hlast
    have hafter : c.coreAfter.table =
        c.tracker.core.table.heard (if c.Accepted then (c.transition.burst? config).toList else []) := by
      rw [c.table_coreAfter, hconfig]
    rw [burstsOf_snoc, hafter, htable, BusyTable.heard, BusyTable.heard, BusyTable.heard, List.foldl_append]
    split
    · next ha =>
      have hnew := ha.exact (hc c (List.mem_singleton_self c))
      rw [hconfig] at hnew
      refine ⟨fun b hb => ?_, List.pairwise_append.2 ⟨hsorted, ?_, fun a ha b hb => ?_⟩, rfl⟩
      · rcases List.mem_append.1 hb with hb | hb
        · exact ⟨(hall b hb).1, hbefore b hb⟩
        · exact (hnew b (Option.mem_toList.1 hb)).imp_right le_of_eq
      · cases c.transition.burst? config with
        | none => exact List.Pairwise.nil
        | some b => exact List.pairwise_singleton _ b
      · exact (hbefore a ha).trans_eq (hnew b (Option.mem_toList.1 hb)).2.symm
    · rw [List.append_nil]
      exact ⟨fun b hb => ⟨(hall b hb).1, hbefore b hb⟩, hsorted, rfl⟩

/-- After calls of a new tracker, its entry on a band adds up what they recorded there in order. -/
theorem remembers_entryOn (h : History config (.fresh config) calls core)
    (hres : config.thresholdResolution.isFinite ∧ ¬config.thresholdResolution ≤ 0)
    (hsum : ∀ c ∈ calls, c.transition.SumsExactly) {on : Sensing} (hon : (on.thresholdIn config).isFinite) :
    let bursts := Burst.onKey config.thresholdResolution (burstsOf config calls) on.band (on.stepIn config)
    Burst.InOrder bursts ∧ BusyTable.Remembers (core.entryOn config on) bursts := by
  obtain ⟨hbursts, hsorted, htable⟩ := h.heard hsum
  have hremembers := BusyTable.remembers_heard (r := config.thresholdResolution)
    (fun b hb => (hbursts b hb).1) on.band (on.stepIn config)
  have hsame : core.table.resolution = config.thresholdResolution := h.resolution
  rw [show BusyTable.mk .. = (Core.fresh config).table from rfl, ← htable,
    ← Core.entryOn_eq (hsame ▸ hres) hsame hon] at hremembers
  exact ⟨hsorted.filter _, hremembers⟩

end History

end RadioOccupancy
