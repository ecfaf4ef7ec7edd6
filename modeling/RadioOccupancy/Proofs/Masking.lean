import RadioOccupancy.Proofs.Clock

/-!
What a tracker remembers when its radio slept in between, and when it did not.

    slept:    asleep   detect   awake       transition   transition
    not:               detect               transition   transition
                                       ^ start

Sleep and power off only mask what the radio does. All intervals and busy entries stay, so what is remembered
without its times (`Core.timeless`) is the same afterwards, and only the times of the latest transition, of
the latest report and of the latest dormancy may differ. Of these, transitions look at the latest time that
was acted on. From `start` on, it makes no difference either (`Core.AlikeFrom`).

Two trackers that are alike in this way stay so (`Core.AlikeFrom.after`). Each transition is accepted by both
or refused by both with the same code (`Core.AlikeFrom.outcome`), and what they tell besides state changes is
the same (`Core.AlikeFrom.tellings`). While the radio of one of them is dormant, it is that of the other under
a mask (`Core.Masks`). Energy keeps it so, and where the mask is taken off, the two are alike
(`Core.Masks.ended`).
-/

namespace RadioOccupancy

/-! ### What is remembered without its times -/

/-- What is remembered, but for when something happened last and how far that was reported. -/
def Core.timeless (core : Core) : Core :=
  { core with
    record := { core.record with lastChange := 0, dormantSince := 0 }
    cursor := 0 }

namespace Core

variable {config : Config}

/-- Changes make no use of times that were remembered, but to remember them. -/
theorem timeless_apply (c : Change) (core : Core) :
    (c.apply core).timeless = (c.apply core.timeless).timeless := by
  cases c <;> rfl

/-- Energy changes the busy table, depending on nothing else. -/
theorem exists_sensed (config : Config) (now duration : Number) (on : Sensing) (table : BusyTable) :
    ∃ table', ∀ record cursor mpdus, Core.sensed config now duration on ⟨record, table, cursor, mpdus⟩ =
      ⟨record, table', cursor, mpdus⟩ := by
  unfold sensed
  dsimp only
  cases Threshold.step (on.thresholdIn config) table.resolution with
  | ok step => exact ⟨_, fun _ _ _ => rfl⟩
  | error r => exact ⟨_, fun _ _ _ => rfl⟩

theorem timeless_sensed (config : Config) (now duration : Number) (on : Sensing) (core : Core) :
    (core.sensed config now duration on).timeless = core.timeless.sensed config now duration on := by
  obtain ⟨table, hsensed⟩ := exists_sensed config now duration on core.table
  change (Core.sensed config now duration on ⟨_, core.table, _, _⟩).timeless =
    Core.sensed config now duration on ⟨_, core.table, _, _⟩
  rw [hsensed, hsensed]
  rfl

end Core

namespace Transition

variable {config : Config} {a b : Core}

/-- Nor do transitions. -/
theorem timeless_after (config : Config) (core : Core) (x : Transition) :
    (x.after config core).timeless = (x.enacted config core.timeless).timeless := by
  cases x with
  | detectEnergy =>
    rw [after, enacted, enacted, Core.timeless_apply, Core.timeless_sensed]
    rfl
  | wakeUp | powerOn =>
    rw [after, enacted, enacted]
    split
    · rw [Core.timeless_sensed, Core.timeless_sensed, Core.timeless_apply]
      rfl
    · rfl
  | _ => rfl

theorem timeless_after_congr (h : a.timeless = b.timeless) (x : Transition) :
    (x.after config a).timeless = (x.after config b).timeless := by
  rw [timeless_after, timeless_after, h]

/-- Nor does what a transition tells once it has reported. -/
theorem enactDeeds_congr (h : a.timeless = b.timeless) (x : Transition) :
    x.enactDeeds config a = x.enactDeeds config b := by
  have htimeless : ∀ core : Core, x.enactDeeds config core.timeless = x.enactDeeds config core := by
    intro core
    cases x <;> rfl
  rw [← htimeless a, ← htimeless b, h]

end Transition

/-! ### Checks that end alike -/

namespace Planning

variable {α β : Type} {a b : Core} {config : Config}

/-- The piece ends in the same way for both, and changes and tells nothing. -/
def Agrees (p : Planning α) (a b : Core) : Prop :=
  ∃ r, Draws p a r a [] ∧ Draws p b r b []

namespace Agrees

theorem bind {p : Planning α} {f : α → Planning β} (hp : Agrees p a b) (hf : ∀ v, Agrees (f v) a b) :
    Agrees (p >>= f) a b := by
  obtain ⟨r, hpa, hpb⟩ := hp
  cases r with
  | error r => exact ⟨.error r, hpa.bind_error, hpb.bind_error⟩
  | ok v =>
    obtain ⟨r, hfa, hfb⟩ := hf v
    exact ⟨r, hpa.bind hfa, hpb.bind hfb⟩

theorem pure (v : α) : Agrees (Pure.pure v) a b :=
  ⟨.ok v, draws_pure v a, draws_pure v b⟩

theorem check (result : Except Refusal α) : Agrees (check result) a b :=
  ⟨result, draws_check result a, draws_check result b⟩

theorem log (m : Log.Message) : Agrees (log m) a b :=
  ⟨.ok (), draws_log m a, draws_log m b⟩

theorem refuse (operation : String) (cause : Cause) : Agrees (refuse operation cause : Planning α) a b :=
  ⟨_, draws_refuse operation cause a, draws_refuse operation cause b⟩

theorem ite {c : Prop} [Decidable c] {p q : Planning α} (hp : Agrees p a b) (hq : Agrees q a b) :
    Agrees (if c then p else q) a b := by
  split
  · exact hp
  · exact hq

/-- What is remembered may be looked at, if it makes no difference. -/
theorem core_bind {f : Core → Planning β} (hf : f a = f b) (h : Agrees (f a) a b) :
    Agrees (core >>= f) a b := by
  obtain ⟨r, ha, hb⟩ := h
  rw [hf] at hb
  exact ⟨r, draws_core_bind ha, draws_core_bind hb⟩

theorem checkTime (operation : String) (now : Number) : Agrees (checkTime operation now) a b :=
  (pure ()).ite (refuse operation _)

theorem checkDuration (operation : String) (duration : Number) :
    Agrees (checkDuration operation duration) a b :=
  (pure ()).ite (refuse operation _)

theorem outcome {p : Planning α} (h : Agrees p a b) : (plan p a).outcome = (plan p b).outcome := by
  obtain ⟨r, ha, hb⟩ := h
  rw [ha.plan.1, hb.plan.1]

end Agrees

theorem agrees_request {x : Transition}
    (h : x.time.isTime → ¬x.time < a.latest ∧ ¬x.time < b.latest) : Agrees (checkRequest x) a b := by
  by_cases htime : x.time.isTime
  · obtain ⟨ha, hb⟩ := h htime
    refine (Agrees.checkTime x.name x.time).bind fun _ => Agrees.core_bind ?_ ?_
    · rw [if_neg ha, if_neg hb]
    · rw [if_neg ha]
      cases x.sensing? with
      | none => exact .pure ()
      | some on => exact .check _
  · have hrefuse : ∀ core, Draws (checkTime x.name x.time) core (.error ⟨x.name, .time x.time⟩) core [] := by
      intro core
      rw [checkTime, if_neg htime]
      exact draws_refuse _ _ core
    exact ⟨_, (hrefuse a).bind_error, (hrefuse b).bind_error⟩

theorem agrees_arguments (x : Transition) : Agrees x.checkArguments a b := by
  cases x with
  | transmit now duration ppdu power vector on =>
    exact (Agrees.checkDuration _ duration).bind fun _ =>
      ((Agrees.refuse _ _).bind fun _ => (Agrees.refuse _ _).ite (.pure ())).ite
        ((Agrees.refuse _ _).ite (.pure ()))
  | receive _ duration | retune _ duration | detectEnergy _ duration | wakeUp _ duration
  | powerOn _ duration => exact .checkDuration _ duration
  | completeReception => exact (Agrees.refuse _ _).ite (.pure ())
  | continueReception | loseReception | abortReception | fallAsleep | powerOff | flush => exact .pure ()

/-- A state that is shown does not depend on times that are remembered. -/
theorem agrees_stateOn (h : a.timeless = b.timeless) (now : Number) (band : Band) (threshold : Number) :
    Agrees (stateOn now band threshold) a b := by
  refine Agrees.core_bind ?_ (.check _)
  change check (a.timeless.record.stateOn a.timeless.table band threshold now) = _
  rw [h]
  rfl

theorem agrees_state (h : a.timeless = b.timeless) (x : Transition) : Agrees (x.checkState config) a b := by
  have hopen : ∀ core : Core, ∀ now, core.timeless.record.hasOpenReception now =
      core.record.hasOpenReception now ∧ core.timeless.record.ownState now = core.record.ownState now ∧
        core.timeless.record.rx = core.record.rx := fun _ _ => ⟨rfl, rfl, rfl⟩
  cases x with
  | transmit | retune | detectEnergy | fallAsleep | receive | wakeUp | powerOn =>
    exact (agrees_stateOn h _ _ _).bind fun _ => (Agrees.refuse _ _).ite (.pure ())
  | continueReception now | completeReception now | loseReception now | abortReception now =>
    obtain ⟨ho, hs, hr⟩ := hopen a now
    obtain ⟨ho', hs', hr'⟩ := hopen b now
    rw [h] at ho hs hr
    refine Agrees.core_bind ?_ ((Agrees.refuse _ _).ite (.pure ()))
    simp only [← ho, ← hs, ← hr, ho', hs', hr']
  | powerOff | flush => exact .pure ()

/-- Checks end alike if the order of times makes no difference. -/
theorem agrees_checks (config : Config) (h : a.timeless = b.timeless) {x : Transition}
    (horder : x.time.isTime → ¬x.time < a.latest ∧ ¬x.time < b.latest) :
    Agrees (do checkRequest x; x.checkArguments; x.checkState config) a b :=
  (agrees_request horder).bind fun _ => (agrees_arguments x).bind fun _ => agrees_state h x

/-- A transition that passes all checks is permitted. -/
theorem permitted_of_checks {x : Transition} {core : Core} {v : Unit}
    (h : Draws (do checkRequest x; x.checkArguments; x.checkState config) core (.ok v) core []) :
    x.Permitted config core := by
  by_contra hnot
  obtain ⟨r, hr⟩ := (checks_body x).2 hnot
  cases h.plan.1.symm.trans hr.plan.1

end Planning

/-- Two refusals that callers cannot tell apart but by their texts. -/
structure Refusal.Alike (r r' : Refusal) : Prop where
  operation : r.operation = r'.operation
  code : r.code = r'.code
  state : r.state? = r'.state?

/-- Two requests end alike: both with the same result, or both with a refusal of the same kind. -/
inductive EndAlike {α : Type} : Except Refusal α → Except Refusal α → Prop
  | ok (v : α) : EndAlike (.ok v) (.ok v)
  | refused {r r' : Refusal} (h : r.Alike r') : EndAlike (.error r) (.error r')

theorem EndAlike.refl {α : Type} (r : Except Refusal α) : EndAlike r r := by
  cases r with
  | ok v => exact .ok v
  | error r => exact .refused ⟨rfl, rfl, rfl⟩

theorem EndAlike.ok_iff {α : Type} {r r' : Except Refusal α} (h : EndAlike r r') (v : α) :
    r = .ok v ↔ r' = .ok v := by
  cases h with
  | ok => rfl
  | refused => simp

/-! ### The latest time after a transition -/

namespace Core.Coherent

variable {config : Config} {core : Core} {x : Transition}

/-- A report does not move the cursor beyond the time of its transition. -/
theorem cursorAfter_le (h : core.Coherent) (hx : x.Permitted config core) : x.cursorAfter core ≤ x.time := by
  obtain ⟨-, hle⟩ := h.le_of_order hx.time hx.order
  have huntil : core.cursorUntil x.time ≤ x.time := by
    rw [Core.cursorUntil]
    split
    · exact hle
    · exact Number.le_rfl_of_isTime hx.time
  cases x with
  | continueReception => exact hle
  | detectEnergy now duration on isPrimary =>
    cases isPrimary with
    | true => exact huntil
    | false => exact hle
  | completeReception now | loseReception now | abortReception now =>
    have hlast := (h.throughout_ownSegments hx.time core.record.activities core.cursor hle rfl).last.2
    rwa [Report.coreAfter_tellProgress] at hlast
  | _ => exact huntil

/-- What is remembered after a permitted transition is coherent. -/
theorem after (h : core.Coherent) (hx : x.Permitted config core)
    (hon : ∀ on ∈ x.sensing?, on.IsUsable config core) : (x.after config core).Coherent := by
  obtain ⟨hok, hafter, -⟩ := Transition.plan_of_permitted hx hon
  have hcore : coreAfter (x.deeds config core) core = x.after config core := by
    rw [← (x.deeds_plan config core).2 hok, coreAfter_deedsOf]
    exact hafter
  exact hcore ▸ (h.throughout_deeds hx).last

/-- A transition moves the latest time to its own, unless it is a continuation. -/
theorem latest_after (h : core.Coherent) (hx : x.Permitted config core)
    (hon : ∀ on ∈ x.sensing?, on.IsUsable config core) (hcont : ¬x.Continues) :
    (x.after config core).latest.value = x.time.value := by
  have htime := Number.isFinite_of_isTime hx.time
  have hafter := h.after hx hon
  have hcursor := h.cursorAfter_le hx
  rw [← x.cursor_after config core, Number.le_iff (Number.isFinite_of_isTime hafter.cursor) htime] at hcursor
  cases x with
  | continueReception => exact absurd trivial hcont
  | flush now on =>
    obtain ⟨hlast, -⟩ := h.le_of_order hx.time hx.order
    rw [Number.le_iff (Number.isFinite_of_isTime h.lastChange) htime] at hlast
    have hreach : (Transition.flush now on).time ≤ ((Transition.flush now on).after config core).cursor :=
      le_cursorUntil hx.time
    rw [Number.le_iff htime (Number.isFinite_of_isTime hafter.cursor)] at hreach
    rw [hafter.latest_value.2]
    exact le_antisymm (max_le hlast hcursor) (hreach.trans (le_max_right _ _))
  | _ =>
    rw [hafter.latest_value.2, Transition.lastChange_after]
    exact max_eq_left hcursor

end Core.Coherent

/-- A continuation leaves the latest time as it is. -/
theorem Transition.latest_of_continues {x : Transition} (h : x.Continues) (config : Config) (core : Core) :
    (x.after config core).latest = core.latest := by
  cases x with
  | continueReception => rfl
  | _ => cases h

/-! ### Trackers that are alike -/

/-- What is told besides state changes. -/
def tellingsOf (steps : List Step) : List Notice :=
  (noticesOf steps).filter Notice.isTelling

section Tellings

variable {config : Config} {a b : Core}

theorem tellingsOf_append (steps more : List Step) :
    tellingsOf (steps ++ more) = tellingsOf steps ++ tellingsOf more := by
  rw [tellingsOf, noticesOf_append, List.filter_append]
  rfl

theorem tellingsOf_deedsOf (steps : List Step) : tellingsOf (deedsOf steps) = tellingsOf steps := by
  rw [tellingsOf, noticesOf_deedsOf]
  rfl

/-- A report tells of nothing but state changes. -/
theorem tellingsOf_reportDeeds (x : Transition) : tellingsOf (x.reportDeeds config a) = [] := by
  rw [tellingsOf, List.filter_eq_nil_iff]
  intro n hn
  obtain ⟨step, hstep, hn⟩ := List.mem_flatMap.1 hn
  rcases Transition.mem_reportDeeds hstep with ⟨t, rfl⟩ | ⟨s, rfl⟩
  · cases hn
  · obtain rfl := List.mem_singleton.1 hn
    exact Bool.false_ne_true

theorem tellingsOf_deeds (x : Transition) :
    tellingsOf (x.deeds config a) = tellingsOf (x.enactDeeds config a) := by
  rw [Transition.deeds, tellingsOf_append, tellingsOf_reportDeeds, List.nil_append]

end Tellings

/-- Whether a threshold can be used depends on the busy table alone. -/
theorem Sensing.IsUsable.of_table {config : Config} {a b : Core} {on : Sensing} (h : on.IsUsable config a)
    (hsame : a.table = b.table) : on.IsUsable config b := by
  unfold IsUsable at h ⊢
  rwa [← hsame]

/-- What is remembered is the same but for times, and these make no difference for the order of transitions
from `start` on. -/
structure Core.AlikeFrom (start : Number) (a b : Core) : Prop where
  timeless : a.timeless = b.timeless
  order : ∀ t : Number, t.isTime → start ≤ t → (t < a.latest ↔ t < b.latest)

namespace Core.AlikeFrom

variable {start : Number} {config : Config} {a b : Core} {x : Transition}

theorem table (h : a.AlikeFrom start b) : a.table = b.table := by
  change a.timeless.table = b.timeless.table
  rw [h.timeless]

theorem isUsable (h : a.AlikeFrom start b) {on : Sensing} (hon : on.IsUsable config a) :
    on.IsUsable config b :=
  hon.of_table h.table

/-- The same transitions are accepted. -/
theorem outcome (h : a.AlikeFrom start b) (hstart : start ≤ x.time)
    (hon : ∀ on ∈ x.sensing?, on.IsUsable config a) :
    EndAlike (x.plan config a).outcome (x.plan config b).outcome := by
  by_cases hlate : x.time.isTime ∧ x.time < a.latest
  · obtain ⟨htime, hlt⟩ := hlate
    rw [Transition.outcome_of_earlier htime hlt,
      Transition.outcome_of_earlier htime ((h.order _ htime hstart).1 hlt)]
    exact .refused ⟨rfl, rfl, rfl⟩
  · have horder : x.time.isTime → ¬x.time < a.latest ∧ ¬x.time < b.latest := fun htime =>
      ⟨fun hlt => hlate ⟨htime, hlt⟩, fun hlt => hlate ⟨htime, (h.order _ htime hstart).2 hlt⟩⟩
    obtain ⟨r, ha, hb⟩ := Planning.agrees_checks config h.timeless horder
    cases r with
    | error r =>
      rw [Transition.plan_eq, Transition.plan_eq, ha.bind_error.plan.1, hb.bind_error.plan.1]
      exact .refl _
    | ok v =>
      rw [(Transition.plan_of_permitted (Planning.permitted_of_checks ha) hon).1,
        (Transition.plan_of_permitted (Planning.permitted_of_checks hb) fun on hx =>
          h.isUsable (hon on hx)).1]
      exact .ok ()

/-- They are permitted for both, or for neither. -/
theorem permitted_iff (h : a.AlikeFrom start b) (hstart : start ≤ x.time)
    (hon : ∀ on ∈ x.sensing?, on.IsUsable config a) : x.Permitted config a ↔ x.Permitted config b := by
  rw [← Transition.outcome_iff hon, ← Transition.outcome_iff fun on hx => h.isUsable (hon on hx)]
  exact (h.outcome hstart hon).ok_iff ()

/-- They stay alike. -/
theorem after (h : a.AlikeFrom start b) (hstart : start ≤ x.time) (ha : a.Coherent) (hb : b.Coherent)
    (hon : ∀ on ∈ x.sensing?, on.IsUsable config a) (hx : x.Permitted config a) :
    (x.after config a).AlikeFrom start (x.after config b) := by
  have hon' : ∀ on ∈ x.sensing?, on.IsUsable config b := fun on hx => h.isUsable (hon on hx)
  have hx' := (h.permitted_iff hstart hon).1 hx
  refine ⟨Transition.timeless_after_congr h.timeless x, fun t ht hle => ?_⟩
  by_cases hcont : x.Continues
  · rw [Transition.latest_of_continues hcont, Transition.latest_of_continues hcont]
    exact h.order t ht hle
  · have htf := Number.isFinite_of_isTime ht
    rw [Number.lt_iff htf (Number.isFinite_of_isTime (ha.after hx hon).latest_value.1),
      Number.lt_iff htf (Number.isFinite_of_isTime (hb.after hx' hon').latest_value.1),
      ha.latest_after hx hon hcont, hb.latest_after hx' hon' hcont]

/-- They tell the same, besides state changes. -/
theorem tellings (h : a.AlikeFrom start b) (hstart : start ≤ x.time)
    (hon : ∀ on ∈ x.sensing?, on.IsUsable config a) :
    tellingsOf (x.plan config a).steps = tellingsOf (x.plan config b).steps := by
  have hon' : ∀ on ∈ x.sensing?, on.IsUsable config b := fun on hx => h.isUsable (hon on hx)
  rw [← tellingsOf_deedsOf, ← tellingsOf_deedsOf (x.plan config b).steps]
  by_cases hx : x.Permitted config a
  · have hx' := (h.permitted_iff hstart hon).1 hx
    rw [(x.deeds_plan config a).2 ((Transition.outcome_iff hon).2 hx),
      (x.deeds_plan config b).2 ((Transition.outcome_iff hon').2 hx'), tellingsOf_deeds, tellingsOf_deeds,
      Transition.enactDeeds_congr h.timeless]
  · have hx' := mt (h.permitted_iff hstart hon).2 hx
    rw [Transition.deeds_plan_of_not_permitted hx, Transition.deeds_plan_of_not_permitted hx']

/-- Questions have the same answers, but for the one that refers to the latest transition. -/
theorem outcome_state (h : a.AlikeFrom start b) (now : Number) (on : Sensing) :
    (Planning.plan (Query.state config now on) a).outcome =
      (Planning.plan (Query.state config now on) b).outcome :=
  Planning.Agrees.outcome ((Planning.Agrees.checkTime _ now).bind fun _ =>
    (Planning.Agrees.check _).bind fun _ => Planning.agrees_stateOn h.timeless now on.band _)

theorem outcome_timeToIdle (h : a.AlikeFrom start b) (now : Number) (on : Sensing) :
    (Planning.plan (Query.timeToIdle config now on) a).outcome =
      (Planning.plan (Query.timeToIdle config now on) b).outcome := by
  have hsame : a.record.timeToIdle a.table on.band (on.thresholdIn config) now =
      b.record.timeToIdle b.table on.band (on.thresholdIn config) now := by
    change a.timeless.record.timeToIdle a.timeless.table on.band (on.thresholdIn config) now = _
    rw [h.timeless]
    rfl
  refine Planning.Agrees.outcome ((Planning.Agrees.checkTime _ now).bind fun _ =>
    (Planning.Agrees.check _).bind fun _ => Planning.Agrees.core_bind ?_ ?_)
  · rw [hsame]
  · cases a.record.timeToIdle a.table on.band (on.thresholdIn config) now with
    | ok delay => exact .pure delay
    | error r => exact (Planning.Agrees.log _).bind fun _ => .check (.error r)

end Core.AlikeFrom

/-! ### A radio under a mask -/

/-- What is remembered of a radio, with other power flags. -/
def Core.masked (asleep off : Bool) (core : Core) : Core :=
  { core with record := { core.record with sleeping := asleep, poweredOff := off } }

/-- The radio of `a` is that of `b` under a mask, while that of `b` is awake and on. -/
structure Core.Masks (asleep off : Bool) (a b : Core) : Prop where
  timeless : a.timeless = (b.masked asleep off).timeless
  awake : b.record.powerState? = none
  latest : b.latest.value ≤ a.latest.value

/-- The transition detects energy. -/
def Transition.Detects : Transition → Prop
  | .detectEnergy .. => True
  | _ => False

/-- The state of a radio can be told if the threshold can be used. -/
theorem Core.exists_stateOn {config : Config} {core : Core} {on : Sensing} (h : on.IsUsable config core)
    (now : Number) :
    ∃ state, core.record.stateOn core.table on.band (on.thresholdIn config) now = .ok state := by
  obtain ⟨step, hstep⟩ := h
  cases hown : core.record.ownState? now with
  | some state => exact ⟨state, Record.stateOn_of_own hown⟩
  | none => exact ⟨_, Record.stateOn_of_idle hown hstep⟩

namespace Core.Masks

variable {asleep off : Bool} {config : Config} {a b : Core} {x : Transition}

theorem table (h : a.Masks asleep off b) : a.table = b.table := by
  change a.timeless.table = b.timeless.table
  rw [h.timeless]
  rfl

theorem isUsable (h : a.Masks asleep off b) {on : Sensing} (hon : on.IsUsable config a) :
    on.IsUsable config b :=
  hon.of_table h.table

/-- What comes in order under the mask does so without it. -/
theorem order (h : a.Masks asleep off b) (ha : a.Coherent) (hb : b.Coherent) {t : Number} (ht : t.isTime)
    (horder : ¬t < a.latest) : ¬t < b.latest := by
  have htf := Number.isFinite_of_isTime ht
  rw [Number.lt_iff htf (Number.isFinite_of_isTime ha.latest_value.1), not_lt] at horder
  rw [Number.lt_iff htf (Number.isFinite_of_isTime hb.latest_value.1), not_lt]
  exact h.latest.trans horder

/-- Energy that is accepted under the mask is accepted without it. -/
theorem permitted (h : a.Masks asleep off b) (ha : a.Coherent) (hb : b.Coherent) (hdetects : x.Detects)
    (hon : ∀ on ∈ x.sensing?, on.IsUsable config a) (hx : x.Permitted config a) :
    x.Permitted config b := by
  refine ⟨hx.time, h.order ha hb hx.time hx.order, hx.band, hx.arguments, ?_⟩
  cases x with
  | detectEnergy now duration on isPrimary =>
    obtain ⟨state, hstate⟩ := Core.exists_stateOn (h.isUsable (hon on rfl)) now
    refine ⟨state, hstate, fun hoff => ?_⟩
    obtain rfl := List.mem_singleton.1 hoff
    cases h.awake.symm.trans (Record.powerState?_of_stateOn rfl hstate)
  | _ => cases hdetects

/-- Energy leaves the mask where it is. -/
theorem after (h : a.Masks asleep off b) (ha : a.Coherent) (hb : b.Coherent) (hdetects : x.Detects)
    (hon : ∀ on ∈ x.sensing?, on.IsUsable config a) (hx : x.Permitted config a) :
    (x.after config a).Masks asleep off (x.after config b) := by
  have hcont : ¬x.Continues := by
    cases x with
    | detectEnergy => exact id
    | _ => cases hdetects
  refine ⟨?_, ?_, ?_⟩
  · rw [Transition.timeless_after, h.timeless, ← Transition.timeless_after]
    cases x with
    | detectEnergy now duration on isPrimary =>
      obtain ⟨table, hsensed⟩ := Core.exists_sensed config now duration on b.table
      change ((Change.stamped now).apply (Core.sensed config now duration on ⟨_, b.table, _, _⟩)).timeless =
        (((Change.stamped now).apply
          (Core.sensed config now duration on ⟨_, b.table, _, _⟩)).masked asleep off).timeless
      rw [hsensed, hsensed]
      rfl
    | _ => cases hdetects
  · cases x with
    | detectEnergy now duration on isPrimary =>
      refine Eq.trans ?_ h.awake
      change ((Change.stamped now).applyToRecord (Core.sensed ..).record).powerState? = _
      rw [Core.record_sensed]
      rfl
    | _ => cases hdetects
  · rw [ha.latest_after hx hon hcont,
      hb.latest_after (h.permitted ha hb hdetects hon hx) (fun on hx => h.isUsable (hon on hx)) hcont]

/-- What energy tells does not depend on the mask. -/
theorem enactDeeds (h : a.Masks asleep off b) (hdetects : x.Detects) :
    x.enactDeeds config a = x.enactDeeds config b := by
  cases x with
  | detectEnergy now duration on isPrimary =>
    rw [Transition.enactDeeds, Transition.enactDeeds, Core.senseDeeds, Core.senseDeeds, h.table]
  | _ => cases hdetects

/-- Where a transition takes off the mask, the two are alike from its time on. -/
theorem ended (h : a.Masks asleep off b) (ha : a.Coherent) (hb : b.Coherent)
    (hon : ∀ on ∈ x.sensing?, on.IsUsable config a) (hx : x.Permitted config a) (hcont : ¬x.Continues)
    (htimeless : (x.after config a).timeless = b.timeless) : (x.after config a).AlikeFrom x.time b := by
  refine ⟨htimeless, fun t ht hle => ?_⟩
  have htf := Number.isFinite_of_isTime ht
  have hxf := Number.isFinite_of_isTime hx.time
  have hbf := Number.isFinite_of_isTime hb.latest_value.1
  have horder := h.order ha hb hx.time hx.order
  rw [Number.lt_iff hxf hbf, not_lt] at horder
  rw [Number.le_iff hxf htf] at hle
  rw [Number.lt_iff htf (Number.isFinite_of_isTime (ha.after hx hon).latest_value.1), Number.lt_iff htf hbf,
    ha.latest_after hx hon hcont]
  exact iff_of_false hle.not_gt (horder.trans hle).not_gt

/-- Where a transition puts a mask on a radio, it does so at its time. -/
theorem begun (hb : b.Coherent) (hawake : b.record.powerState? = none)
    (hon : ∀ on ∈ x.sensing?, on.IsUsable config b) (hx : x.Permitted config b) (hcont : ¬x.Continues)
    (htimeless : (x.after config b).timeless = (b.masked asleep off).timeless) :
    (x.after config b).Masks asleep off b := by
  refine ⟨htimeless, hawake, ?_⟩
  have horder := hx.order
  rw [Number.lt_iff (Number.isFinite_of_isTime hx.time) (Number.isFinite_of_isTime hb.latest_value.1),
    not_lt] at horder
  rw [hb.latest_after hx hon hcont]
  exact horder

end Core.Masks

/-- The radio sleeps for a while, and energy may be detected meanwhile. Or it is off for a while. No energy is
recorded as it comes back. -/
inductive Transition.IsCycle : Transition → List Transition → Transition → Prop
  | sleep {t₁ t₂ duration : Number} {on on' : Sensing} {isPrimary : Bool} {during : List Transition}
      (hduring : ∀ x ∈ during, x.Detects) (hduration : ¬0 < duration) :
      IsCycle (.fallAsleep t₁ on) during (.wakeUp t₂ duration on' isPrimary)
  | power {t₁ t₂ duration : Number} {on on' : Sensing} {isPrimary : Bool} (hduration : ¬0 < duration) :
      IsCycle (.powerOff t₁ on) [] (.powerOn t₂ duration on' isPrimary)

namespace Transition.IsCycle

variable {config : Config} {first last : Transition} {during : List Transition}

theorem detects (h : IsCycle first during last) : ∀ x ∈ during, x.Detects := by
  cases h with
  | sleep hduring => exact hduring
  | power => simp

theorem not_continues (h : IsCycle first during last) : ¬first.Continues ∧ ¬last.Continues := by
  cases h <;> exact ⟨id, id⟩

/-- The first transition of a cycle puts a mask on the radio, and the last one takes it off. -/
theorem mask (h : IsCycle first during last) (config : Config) :
    ∃ asleep off : Bool,
      (∀ b : Core, b.record.powerState? = none →
        (first.after config b).timeless = (b.masked asleep off).timeless) ∧
      ∀ a b : Core, b.record.powerState? = none → a.timeless = (b.masked asleep off).timeless →
        (last.after config a).timeless = b.timeless := by
  have hflags : ∀ b : Core, b.record.powerState? = none → b.masked false false = b := by
    intro b hawake
    obtain ⟨hoff, hasleep⟩ := (Record.powerState?_eq_none_iff _).1 hawake
    have hsame : b.masked b.record.sleeping b.record.poweredOff = b := rfl
    rwa [hasleep, hoff] at hsame
  cases h with
  | sleep hduring hduration =>
    refine ⟨true, false, fun b hawake => ?_, fun a b hawake hmask => ?_⟩
    · rw [← hflags b hawake]
      rfl
    · rw [timeless_after, hmask, enacted, if_neg hduration, ← hflags b hawake]
      rfl
  | power hduration =>
    refine ⟨false, true, fun b hawake => ?_, fun a b hawake hmask => ?_⟩
    · rw [← hflags b hawake]
      rfl
    · rw [timeless_after, hmask, enacted, if_neg hduration, ← hflags b hawake]
      rfl

end Transition.IsCycle

end RadioOccupancy
