import RadioOccupancy.Proofs.Deeds
import RadioOccupancy.Proofs.Session.Runs
import RadioOccupancy.Proofs.Sound

/-!
What the calls of a history do, one by one.

With finite thresholds, a call is accepted and does what its transition is there for
(`Call.Fits.of_accepted`), or it is refused and does nothing (`Call.Fits.of_refused`). So what the tracker
remembers stays sound (`History.sound`), and whatever each call keeps holds of a whole history
(`History.invariant`, `History.kept`).
-/

namespace RadioOccupancy

namespace Call

variable {c : Call} {config : Config}

/-- A free tracker that has not been disposed of takes the transition. -/
theorem plan_of_free (hconfig : c.tracker.config = config) (hfree : c.tracker.announcing = 0)
    (hd : c.tracker.disposed = false) : c.plan = c.transition.plan config c.tracker.core := by
  have : c.tracker.unavailable? = none := by
    simp [Tracker.unavailable?, hd, hfree]
  rw [plan, Tracker.plan, this, hconfig]

/-- One that has been disposed of refuses it, and does nothing. -/
theorem refused_of_disposed (hd : c.tracker.disposed = true) :
    ¬c.Accepted ∧ c.coreAfter = c.tracker.core ∧ c.plan.notices = [] := by
  have : c.plan = Planning.plan (Planning.refuse c.transition.name .disposed) c.tracker.core := by
    rw [plan, Tracker.plan, Tracker.unavailable?, hd]
    rfl
  have hdraws : Planning.Draws (Planning.refuse c.transition.name .disposed : Planning Unit)
    c.tracker.core _ _ _ := Planning.draws_refuse _ _ _
  obtain ⟨hout, hcore, hns⟩ := hdraws.plan
  rw [Accepted, coreAfter, this, hout]
  exact ⟨by rintro ⟨⟩, hcore, hns⟩

/-- The state changes that observers hear of in a call. -/
def stateChanges (c : Call) : List (Number × Number × Radio.State) :=
  c.plan.stateChanges

/-- The call is one of a tracker that is free to take it, with a configuration. -/
structure Fits (config : Config) (c : Call) : Prop where
  configured : c.tracker.config = config
  free : c.tracker.announcing = 0
  sound : c.tracker.core.Sound
  threshold : c.transition.HasFiniteThreshold config

/-- A call is accepted just if the tracker is there to take it and the transition is permitted. -/
theorem Fits.accepted_iff (h : c.Fits config) :
    c.Accepted ↔ c.tracker.disposed = false ∧ c.transition.Permitted config c.tracker.core := by
  cases hd : c.tracker.disposed with
  | true => simp [(refused_of_disposed hd).1]
  | false =>
    rw [Accepted, plan_of_free h.configured h.free hd, Transition.outcome_iff
      fun on hon => Sensing.isUsable_of_isFinite h.sound (h.threshold on hon)]
    simp

/-- An accepted call does what its transition is there for. -/
theorem Fits.of_accepted (h : c.Fits config) (ha : c.Accepted) :
    c.transition.Permitted config c.tracker.core ∧
      c.coreAfter = c.transition.after config c.tracker.core ∧
      c.stateChanges = Report.told (c.transition.segments config c.tracker.core) := by
  obtain ⟨hd, hp⟩ := h.accepted_iff.1 ha
  obtain ⟨-, hcore, hchanges⟩ := Transition.plan_of_permitted hp
    fun on hon => Sensing.isUsable_of_isFinite h.sound (h.threshold on hon)
  rw [coreAfter, stateChanges, plan_of_free h.configured h.free hd]
  exact ⟨hp, hcore, hchanges⟩

/-- A refused call does nothing. -/
theorem Fits.of_refused (h : c.Fits config) (ha : ¬c.Accepted) :
    c.coreAfter = c.tracker.core ∧ c.stateChanges = [] := by
  cases hd : c.tracker.disposed with
  | true =>
    obtain ⟨-, hcore, hns⟩ := refused_of_disposed hd
    exact ⟨hcore, by rw [stateChanges, Plan.stateChanges, hns]; rfl⟩
  | false =>
    have hp : ¬c.transition.Permitted config c.tracker.core := fun hp =>
      ha (h.accepted_iff.2 ⟨hd, hp⟩)
    obtain ⟨-, -, hcore, hns⟩ := Transition.plan_of_not_permitted hp
    rw [coreAfter, stateChanges, Plan.stateChanges, plan_of_free h.configured h.free hd]
    exact ⟨hcore, by rw [hns]; rfl⟩

end Call

/-- What a new tracker remembers is sound. -/
theorem Core.sound_fresh {config : Config}
    (hres : config.thresholdResolution.isFinite ∧ ¬config.thresholdResolution ≤ 0) :
    (Core.fresh config).Sound where
  cursor := Number.isTime_zero
  lastChange := Number.isTime_zero
  begun := by
    have h : ({} : Interval).BegunBy (0 : Number).value :=
      ⟨Number.isFinite_zero, Number.isFinite_zero, le_rfl⟩
    exact Record.forall_activities.2 ⟨h, h, h⟩
  entries := by simp [fresh]
  resolution := hres

namespace History

variable {config : Config} {start core : Core} {calls : List Call}

/-- What a tracker remembers is sound after each call, if it was before the first one. -/
theorem sound (h : History config start calls core) (hstart : start.Sound)
    (hthr : ∀ c ∈ calls, c.transition.HasFiniteThreshold config)
    (hends : ∀ c ∈ calls, c.transition.EndsLater) : core.Sound := by
  induction h with
  | nil => exact hstart
  | @snoc calls c h hconfig hfree ih =>
    have hsound := ih (fun c hc => hthr c (by simp [hc])) fun c hc => hends c (by simp [hc])
    have hfits : c.Fits config := ⟨hconfig, hfree, hsound, hthr c (by simp)⟩
    by_cases ha : c.Accepted
    · obtain ⟨hp, hcore, -⟩ := hfits.of_accepted ha
      rw [hcore]
      exact hsound.after hp (hends c (by simp))
    · rw [(hfits.of_refused ha).1]
      exact hsound

/-- What holds at the beginning of a history, and after each call if it did before, holds in the end. -/
theorem invariant {Q : List Call → Core → Prop} (h : History config start calls core)
    (hstart : start.Sound) (hthr : ∀ c ∈ calls, c.transition.HasFiniteThreshold config)
    (hends : ∀ c ∈ calls, c.transition.EndsLater) (hnil : Q [] start)
    (hsnoc : ∀ before c, before ++ [c] <+: calls → c.Fits config →
      History config start before c.tracker.core → Q before c.tracker.core →
      Q (before ++ [c]) c.coreAfter) : Q calls core := by
  induction h with
  | nil => exact hnil
  | @snoc calls c h hconfig hfree ih =>
    obtain ⟨hthr, hc⟩ := List.forall_mem_append.1 hthr
    obtain ⟨hends, -⟩ := List.forall_mem_append.1 hends
    have hfits : c.Fits config := ⟨hconfig, hfree, h.sound hstart hthr hends, hc c (by simp)⟩
    refine hsnoc calls c List.prefix_rfl hfits h (ih hthr hends fun before d hd => ?_)
    exact hsnoc before d (hd.trans (List.prefix_append _ _))

/-- What holds at the beginning of a history and is kept by each permitted transition holds in the
end. -/
theorem kept {P : Core → Prop} (h : History config start calls core) (hstart : start.Sound)
    (hthr : ∀ c ∈ calls, c.transition.HasFiniteThreshold config)
    (hends : ∀ c ∈ calls, c.transition.EndsLater) (hP : P start)
    (hafter : ∀ c ∈ calls, c.tracker.core.Sound → c.transition.Permitted config c.tracker.core →
      P c.tracker.core → P (c.transition.after config c.tracker.core)) : P core := by
  refine h.invariant (Q := fun _ => P) hstart hthr hends hP fun before c hpre hfits _ hc => ?_
  by_cases ha : c.Accepted
  · obtain ⟨hp, hcore, -⟩ := hfits.of_accepted ha
    rw [hcore]
    exact hafter c (hpre.subset (by simp)) hfits.sound hp hc
  · rw [(hfits.of_refused ha).1]
    exact hc

/-- The cursor does not move back. -/
theorem cursor_le (h : History config start calls core) (hstart : start.Sound)
    (hthr : ∀ c ∈ calls, c.transition.HasFiniteThreshold config)
    (hends : ∀ c ∈ calls, c.transition.EndsLater) : start.cursor.value ≤ core.cursor.value := by
  refine h.kept (P := fun core => start.cursor.value ≤ core.cursor.value) hstart hthr hends le_rfl
    fun c _ hs hp hle => hle.trans ?_
  rw [Transition.cursor_after]
  exact hs.cursor_le_cursorAfter hp

/-- No call changes how finely thresholds are told apart. -/
theorem resolution (h : History config start calls core) :
    core.table.resolution = start.table.resolution := by
  induction h with
  | nil => rfl
  | @snoc calls c h hconfig hfree ih => exact (resolution_coreAfter c.plan.steps c.tracker.core).trans ih

/-- Each call of a history finds what the history before it left, and the history goes on from what it
leaves. -/
theorem fits {before after : List Call} {c : Call}
    (h : History config start (before ++ c :: after) core) (hstart : start.Sound)
    (hthr : ∀ d ∈ before ++ c :: after, d.transition.HasFiniteThreshold config)
    (hends : ∀ d ∈ before ++ c :: after, d.transition.EndsLater) :
    c.Fits config ∧ History config start before c.tracker.core ∧
      History config c.coreAfter after core := by
  obtain ⟨mid, hbefore, hafter⟩ := h.split
  obtain ⟨rfl, hconfig, hfree, hafter⟩ := hafter.of_cons
  have hsound := hbefore.sound hstart (fun d hd => hthr d (List.mem_append_left _ hd))
    fun d hd => hends d (List.mem_append_left _ hd)
  exact ⟨⟨hconfig, hfree, hsound, hthr c (by simp)⟩, hbefore, hafter⟩

/-- No call that is accepted comes before the cursor at the beginning. -/
theorem le_time (h : History config start calls core) (hstart : start.Sound)
    (hthr : ∀ c ∈ calls, c.transition.HasFiniteThreshold config)
    (hends : ∀ c ∈ calls, c.transition.EndsLater) {c : Call} (hc : c ∈ calls) (ha : c.Accepted) :
    start.cursor.value ≤ c.transition.time.value := by
  obtain ⟨before, after, rfl⟩ := List.append_of_mem hc
  obtain ⟨hfits, hbefore, -⟩ := h.fits hstart hthr hends
  obtain ⟨hp, -, -⟩ := hfits.of_accepted ha
  refine le_trans ?_ (hfits.sound.le_of_order hp.time hp.order).1
  exact hbefore.cursor_le hstart (fun d hd => hthr d (List.mem_append_left _ hd))
    fun d hd => hends d (List.mem_append_left _ hd)

end History

end RadioOccupancy
