import RadioOccupancy.Proofs.Reference
import RadioOccupancy.Proofs.Session.History

/-!
A tracker refines the reference radio.

The reference radio is run on the same calls and decides for itself which of them it accepts. After any
run, the tracker accepts what it accepts and shows the states that it shows.
-/

namespace RadioOccupancy

namespace Reference

/-- A call of the reference radio. It takes what it accepts, until it is disposed of. -/
def step (config : Config) (radio : Reference) (c : Call) : Reference :=
  if c.tracker.disposed = false ∧ radio.Accepts config c.transition then
    radio.after config c.transition
  else radio

/-- The reference radio after calls. -/
def run (config : Config) (calls : List Call) : Reference :=
  calls.foldl (step config) {}

/-- The reference radio that has done nothing stands for a new tracker. -/
theorem matches_fresh (config : Config) : Matches config {} (Core.fresh config) :=
  ⟨rfl, rfl, rfl, Number.value_zero, Number.value_zero, Number.value_zero, fun _ _ => rfl, rfl⟩

/-- A call of the tracker is a call of the reference radio. -/
theorem matches_step {config : Config} {radio : Reference} {c : Call} (hc : c.Fits config)
    (h : radio.Matches config c.tracker.core) (hclock : c.tracker.core.latest.value = radio.clock)
    (hsum : c.transition.SumsExactly) :
    (radio.step config c).Matches config c.coreAfter ∧
      c.coreAfter.latest.value = (radio.step config c).clock := by
  have hperm := h.permitted_iff hc.sound hclock hc.threshold
  rw [step]
  by_cases ha : c.Accepted
  · obtain ⟨hp, hcore, -⟩ := hc.of_accepted ha
    rw [if_pos ⟨(hc.accepted_iff.1 ha).1, hperm.1 hp⟩, hcore]
    exact ⟨h.after hc.sound hp hc.threshold hsum, clock_after hc.sound hclock hp hsum.endsLater⟩
  · rw [if_neg fun hacc => ha (hc.accepted_iff.2 ⟨hacc.1, hperm.2 hacc.2⟩), (hc.of_refused ha).1]
    exact ⟨h, hclock⟩

end Reference

/-- The reference radio stands for what a tracker remembers after any history. -/
theorem History.matches {config : Config} {calls : List Call} {core : Core}
    (h : History config (.fresh config) calls core)
    (hres : config.thresholdResolution.isFinite ∧ ¬config.thresholdResolution ≤ 0)
    (hthr : ∀ c ∈ calls, c.transition.HasFiniteThreshold config)
    (hsum : ∀ c ∈ calls, c.transition.SumsExactly) :
    (Reference.run config calls).Matches config core ∧
      core.latest.value = (Reference.run config calls).clock := by
  have hstart := Core.sound_fresh hres
  refine h.invariant (Q := fun calls core => (Reference.run config calls).Matches config core ∧
    core.latest.value = (Reference.run config calls).clock) hstart hthr
    (fun c hc => (hsum c hc).endsLater) ⟨Reference.matches_fresh config, ?_⟩ ?_
  · rw [hstart.latest_value.2]
    change max (Number.value 0) (Number.value 0) = 0
    rw [Number.value_zero, max_self]
  · rintro before c hpre hfits - ⟨hmatch, hclock⟩
    rw [Reference.run, List.foldl_append]
    exact Reference.matches_step hfits hmatch hclock (hsum c (hpre.subset (by simp)))

/-- The answer to the question for the state, where it may be asked. -/
theorem Query.outcome_state {config : Config} {core : Core} {now : Number} {on : Sensing}
    (hnow : now.isTime) (hband : on.band.isValid) :
    (Planning.plan (Query.state config now on) core).outcome =
      core.record.stateOn core.table on.band (on.thresholdIn config) now := by
  have hstate : Planning.Draws (Planning.stateOn now on.band (on.thresholdIn config)) core _ core [] :=
    Planning.draws_core_bind (Planning.draws_check _ core)
  have hquery : Planning.Draws (Query.state config now on) core _ core _ :=
    ((Planning.checks_time _ now core).1 hnow).bind
      (((Planning.checks_band _ on.band core).1 hband).bind hstate)
  exact hquery.plan.1

/-- After any run of a session in which no observer failed, a tracker accepts a transition just if its
arguments are valid, it does not come before the latest one, and the reference radio allows it; and at
all times, on all bands and at all finite thresholds it shows the state of the reference radio. -/
theorem Session.Run.refines_reference {i : Nat} {s s' : Session} {calls : List Call}
    {config : Config} {t : Tracker} (hrun : Session.Run i s calls s') (hs : s.Starts i config)
    (ht : s'.trackers[i]? = some t) (hthr : ∀ c ∈ calls, c.transition.HasFiniteThreshold config)
    (hsum : ∀ c ∈ calls, c.transition.SumsExactly) :
    (∀ x : Transition, x.HasFiniteThreshold config →
      ((t.plan x).outcome = .ok () ↔
        t.disposed = false ∧ x.time.isTime ∧ (∀ on ∈ x.sensing?, on.band.isValid) ∧
          x.ArgumentsValid ∧ ¬x.time < t.core.latest ∧ (Reference.run config calls).Allows config x)) ∧
    ∀ (now : Number) (on : Sensing), now.isTime → on.band.isValid → (on.thresholdIn config).isFinite →
      (Planning.plan (Query.state config now on) t.core).outcome =
        .ok ((Reference.run config calls).stateAt now.value on.band (on.stepIn config)) := by
  have hres := hs.resolution
  obtain ⟨u, hu, hconfig, hfree, hhist⟩ := hrun.history hs
  obtain rfl := Option.some.inj (ht.symm.trans hu)
  have hsound := hhist.sound (Core.sound_fresh hres) hthr fun c hc => (hsum c hc).endsLater
  obtain ⟨hmatch, hclock⟩ := hhist.matches hres hthr hsum
  refine ⟨fun x hx => ?_, fun now on hnow hband hon => ?_⟩
  · have hfits : Call.Fits config ⟨t, x⟩ := ⟨hconfig, hfree, hsound, hx⟩
    refine hfits.accepted_iff.trans (and_congr_right fun _ => ?_)
    constructor
    · rintro ⟨htime, horder, hband, hargs, hstate⟩
      exact ⟨htime, hband, hargs, horder, (hmatch.mayBegin_iff hsound htime hx).1 hstate⟩
    · rintro ⟨htime, hband, hargs, horder, hstate⟩
      exact ⟨htime, horder, hband, hargs, (hmatch.mayBegin_iff hsound htime hx).2 hstate⟩
  · rw [Query.outcome_state hnow hband]
    exact hmatch.stateOn hsound hon (Number.isFinite_of_isTime hnow)

/-- A radio begins to receive at time zero, for fifty units. It shows so after ten, and the reception can
be ended after fifty. -/
theorem Session.Run.refines_reference_of_reception :
    ∃ c s t, Session.Run 0 (.first {}) [c] s ∧ s.trackers[0]? = some t ∧
      (t.plan (.abortReception 50 false)).outcome = .ok () ∧
      (Planning.plan (Query.state {} 10 ⟨⟨0, 63⟩, none⟩) t.core).outcome = .ok .rx := by
  obtain ⟨s, t, hcall, ht, hd, hlatest⟩ : ∃ s t,
      (Act.carryOutSteps (Act.respond 1) 0
        ((Tracker.first {}).plan (.receive 0 50 ⟨⟨0, 63⟩, none⟩)).steps).ran (.first {}) = (.ok (), s) ∧
      s.trackers[0]? = some t ∧ t.disposed = false ∧ ¬50 < t.core.latest :=
    ⟨_, _, rfl, rfl, rfl, by decide +kernel⟩
  have hrun : Session.Run 0 (.first {}) ([] ++ [_]) s := .call .nil rfl hcall
  have hon : ∀ on : Sensing, on.threshold = none → (on.thresholdIn {}).isFinite := by
    intro on h
    rw [Sensing.thresholdIn, h]
    rfl
  obtain ⟨haccept, hstate⟩ := Session.Run.refines_reference hrun Session.starts_first ht
    (by simpa [Transition.HasFiniteThreshold, Transition.sensing?] using hon _ rfl)
    (by simp only [Transition.SumsExactly]; decide +kernel)
  have hnone : (Transition.abortReception 50 false).HasFiniteThreshold {} := by
    simp [Transition.HasFiniteThreshold, Transition.sensing?]
  refine ⟨_, s, t, hrun, ht, (haccept _ hnone).2 ⟨hd, ?_, ?_, ?_, hlatest, ?_⟩,
    (hstate 10 _ ?_ ?_ (hon _ rfl)).trans (congrArg Except.ok ?_)⟩
  all_goals decide +kernel

end RadioOccupancy
