import RadioOccupancy.Proofs.Ledger
import RadioOccupancy.Proofs.Masking
import RadioOccupancy.Proofs.Session.Orderly
import RadioOccupancy.Proofs.Session.Passive

/-!
Sleep and power cycles are transparent.

    cycled:   fallAsleep  detectEnergy  wakeUp    completeReception  getState
    plain:                detectEnergy            completeReception  getState
                                           ^ alike from here on

A radio that sleeps for a while, or is off for a while, goes on afterwards as if it had stayed awake. Two
trackers that are alike (`Tracker.AlikeFrom`) answer each transition alike and call the same observers,
besides those that hear of state changes, and stay alike (`Tracker.AlikeFrom.step`). While one of two radios
is dormant and the other is not, energy is the same for both (`Tracker.Masks.step`), and where the cycle ends,
their trackers are alike (`Tracker.Fit.cycle`). So two sessions that differ by a cycle answer alike whatever
follows it (`Session.cycle_transparent`).
-/

namespace RadioOccupancy

/-- The transition ends a reception. -/
def Transition.EndsReception : Transition → Prop
  | .completeReception .. | .loseReception .. | .abortReception .. => True
  | _ => False

/-- What a tracker shows of itself, but for the times of the latest transition and of the latest dormancy. -/
def TrackerView.timeless (v : TrackerView) : TrackerView :=
  { v with record := { v.record with lastChange := 0, dormantSince := 0 } }

/-! ### Trackers -/

namespace Tracker
open Session

variable {config : Config} {start : Number} {asleep off : Bool} {t u : Tracker} {x : Transition}

/-- A tracker that takes transitions: it is announcing nothing, its entries are told apart by their serials,
what it remembers is coherent, and its resolution can be used. -/
structure Fit (config : Config) (t : Tracker) : Prop where
  config : t.config = config
  free : t.announcing = 0
  sound : t.subscriptions.Sound
  coherent : t.core.Coherent
  resolution : t.core.table.resolution.isFinite ∧ ¬t.core.table.resolution ≤ 0

/-- Deeds keep what is remembered coherent, and the resolution. -/
theorem throughout_fit {core : Core} (h : core.Coherent)
    (hres : core.table.resolution.isFinite ∧ ¬core.table.resolution ≤ 0) (hx : x.Permitted config core) :
    Throughout (fun core => core.Coherent ∧ core.table.resolution.isFinite ∧ ¬core.table.resolution ≤ 0)
      (x.deeds config core) core := by
  refine (h.throughout_deeds hx).and (Throughout.of_changes hres fun c _ core hcore => ?_)
  cases c <;> exact hcore

/-- A tracker after a request for a transition, if observers only listen. -/
def after (t : Tracker) (x : Transition) : Tracker :=
  t.afterSteps (t.plan x).steps

/-- A tracker after requests for transitions in turn. -/
def afterAll (t : Tracker) (xs : List Transition) : Tracker :=
  xs.foldl after t

/-- Transitions that are requested in turn are all accepted. -/
def AcceptsAll (t : Tracker) : List Transition → Prop
  | [] => True
  | x :: rest => (t.plan x).outcome = .ok () ∧ (t.after x).AcceptsAll rest

theorem acceptsAll_append (t : Tracker) (xs ys : List Transition) :
    t.AcceptsAll (xs ++ ys) ↔ t.AcceptsAll xs ∧ (t.afterAll xs).AcceptsAll ys := by
  induction xs generalizing t with
  | nil => exact (and_iff_right trivial).symm
  | cons x rest ih => exact (and_congr_right fun _ => ih (t.after x)).trans and_assoc.symm

theorem sound_afterSteps (h : t.subscriptions.Sound) (steps : List Step) :
    (t.afterSteps steps).subscriptions.Sound :=
  sound_notifiedAll h (noticesOf steps)

/-- Who hears of something else than state changes after steps of a plan. -/
theorem audience_afterSteps (h : t.subscriptions.Sound) (steps : List Step) :
    (t.afterSteps steps).audience = (tellingsOf steps).foldl Audience.notified t.audience :=
  (heard h (noticesOf steps)).1

/-- Being told of something changes subscriptions only. -/
theorem notifiedAll_eq (t : Tracker) (ns : List Notice) :
    t.notifiedAll ns = { t with subscriptions := (t.notifiedAll ns).subscriptions } := by
  induction ns generalizing t with
  | nil => rfl
  | cons n rest ih =>
    refine (ih (t.notified n)).trans ?_
    cases n <;> rfl

theorem afterSteps_eq (t : Tracker) (steps : List Step) :
    t.afterSteps steps =
      { t with core := coreAfter steps t.core, subscriptions := (t.afterSteps steps).subscriptions } := by
  rw [afterSteps, notifiedAll_eq]

theorem disposed_after (t : Tracker) (x : Transition) : (t.after x).disposed = t.disposed := by
  rw [after, afterSteps_eq]

namespace Fit

theorem isUsable (h : t.Fit config) (hx : x.HasFiniteThreshold config) :
    ∀ on ∈ x.sensing?, on.IsUsable config t.core :=
  fun on hon => Sensing.isUsable_of_resolution h.resolution (hx on hon)

/-- Transitions keep a tracker fit. -/
theorem after (h : t.Fit config) (x : Transition) : (t.after x).Fit config := by
  have hcore : (coreAfter (t.plan x).steps t.core).Coherent ∧
      (coreAfter (t.plan x).steps t.core).table.resolution.isFinite ∧
        ¬(coreAfter (t.plan x).steps t.core).table.resolution ≤ 0 := by
    rw [← coreAfter_deedsOf]
    rcases t.deeds_plan x with hnone | ⟨-, hx, hpre⟩
    · rw [hnone]
      exact ⟨h.coherent, h.resolution⟩
    · exact (throughout_fit h.coherent h.resolution hx).of_isPrefix hpre
  have hsound := sound_afterSteps h.sound (t.plan x).steps
  rw [Tracker.after, afterSteps_eq]
  exact ⟨h.config, h.free, hsound, hcore.1, hcore.2⟩

theorem afterAll (h : t.Fit config) (xs : List Transition) : (t.afterAll xs).Fit config := by
  induction xs generalizing t with
  | nil => exact h
  | cons x rest ih => exact ih (h.after x)

/-- A tracker that has been disposed of takes no transition, and any other takes those that are permitted. -/
theorem unavailable?_eq (h : t.Fit config) :
    t.unavailable? = if t.disposed then some .disposed else none := by
  rw [unavailable?, if_neg (not_not_intro h.free)]

theorem plan_of_disposed (h : t.Fit config) (hdisposed : t.disposed = true) (x : Transition) :
    t.plan x = Planning.plan (Planning.refuse x.name .disposed) t.core := by
  rw [plan, h.unavailable?_eq, if_pos hdisposed]

theorem plan_eq (h : t.Fit config) (hdisposed : t.disposed = false) (x : Transition) :
    t.plan x = x.plan config t.core := by
  rw [plan, h.unavailable?_eq, hdisposed, h.config]
  rfl

/-- A transition that is accepted is permitted, and what it is there for is done. -/
theorem accepted (h : t.Fit config) (hx : x.HasFiniteThreshold config) (ha : (t.plan x).outcome = .ok ()) :
    t.disposed = false ∧ x.Permitted config t.core ∧
      (t.after x).core = x.after config t.core := by
  have hfree : t.disposed = false := by
    cases hdisposed : t.disposed with
    | false => rfl
    | true =>
      rw [h.plan_of_disposed hdisposed] at ha
      cases ha
  have hplan := h.plan_eq hfree x
  rw [hplan] at ha
  have hx' := (Transition.outcome_iff (h.isUsable hx)).1 ha
  refine ⟨hfree, hx', ?_⟩
  rw [Tracker.after, hplan]
  exact (Transition.plan_of_permitted hx' (h.isUsable hx)).2.1

/-- What is permitted is accepted, but for a tracker that has been disposed of. -/
theorem outcome_of_permitted (h : t.Fit config) (hdisposed : t.disposed = false)
    (hx : x.HasFiniteThreshold config) (hp : x.Permitted config t.core) : (t.plan x).outcome = .ok () := by
  rw [h.plan_eq hdisposed]
  exact (Transition.outcome_iff (h.isUsable hx)).2 hp

/-- Who hears of something else than state changes, where a transition is accepted. -/
theorem audience_after (h : t.Fit config) (ha : (t.plan x).outcome = .ok ()) :
    (t.after x).audience = (tellingsOf (x.enactDeeds config t.core)).foldl Audience.notified t.audience := by
  rw [Tracker.after, audience_afterSteps h.sound, ← tellingsOf_deedsOf, (deeds_plan_of_accepted ha).2,
    tellingsOf_deeds, h.config]

end Fit

/-- Two trackers are alike from `start` on, and the same observers hear of something else than state changes.
-/
structure AlikeFrom (start : Number) (t u : Tracker) : Prop where
  core : t.core.AlikeFrom start u.core
  disposed : t.disposed = u.disposed
  audience : t.audience = u.audience

namespace AlikeFrom

/-- Trackers that are alike plan transitions alike, and tell the same besides state changes. -/
theorem plan (h : t.AlikeFrom start u) (ht : t.Fit config) (hu : u.Fit config) (hstart : start ≤ x.time)
    (hx : x.HasFiniteThreshold config) :
    EndAlike (t.plan x).outcome (u.plan x).outcome ∧
      tellingsOf (t.plan x).steps = tellingsOf (u.plan x).steps ∧
        (coreAfter (t.plan x).steps t.core).AlikeFrom start (coreAfter (u.plan x).steps u.core) := by
  cases hdisposed : t.disposed with
  | true =>
    rw [ht.plan_of_disposed hdisposed, hu.plan_of_disposed (h.disposed ▸ hdisposed)]
    exact ⟨.refused ⟨rfl, rfl, rfl⟩, rfl, h.core⟩
  | false =>
    have hon := ht.isUsable hx
    have hon' := hu.isUsable hx
    rw [ht.plan_eq hdisposed, hu.plan_eq (h.disposed ▸ hdisposed)]
    refine ⟨h.core.outcome hstart hon, h.core.tellings hstart hon, ?_⟩
    by_cases hp : x.Permitted config t.core
    · have hp' := (h.core.permitted_iff hstart hon).1 hp
      have hafter := h.core.after hstart ht.coherent hu.coherent hon hp
      rwa [← (Transition.plan_of_permitted hp hon).2.1,
        ← (Transition.plan_of_permitted hp' hon').2.1] at hafter
    · have hp' := mt (h.core.permitted_iff hstart hon).2 hp
      rw [← coreAfter_deedsOf, ← coreAfter_deedsOf (x.plan config u.core).steps,
        Transition.deeds_plan_of_not_permitted hp, Transition.deeds_plan_of_not_permitted hp']
      exact h.core

/-- Trackers that are alike stay so. -/
theorem step (h : t.AlikeFrom start u) (ht : t.Fit config) (hu : u.Fit config) (hstart : start ≤ x.time)
    (hx : x.HasFiniteThreshold config) :
    (t.after x).AlikeFrom start (u.after x) := by
  obtain ⟨-, htellings, hcore⟩ := h.plan ht hu hstart hx
  refine ⟨hcore, ?_, ?_⟩
  · rw [disposed_after, disposed_after, h.disposed]
  · rw [after, after, audience_afterSteps ht.sound, audience_afterSteps hu.sound, htellings, h.audience]

/-- They call the same observers, besides those that hear of state changes. -/
theorem calls (h : t.AlikeFrom start u) (ht : t.Fit config) (hu : u.Fit config) (hstart : start ≤ x.time)
    (hx : x.HasFiniteThreshold config) :
    (t.callsOnAll (noticesOf (t.plan x).steps)).filter ObserverCall.isTelling =
      (u.callsOnAll (noticesOf (u.plan x).steps)).filter ObserverCall.isTelling := by
  obtain ⟨-, htellings, -⟩ := h.plan ht hu hstart hx
  rw [(heard ht.sound _).2, (heard hu.sound _).2, h.audience]
  exact congrArg _ htellings

/-- They show the same of themselves, but for times. -/
theorem view (h : t.AlikeFrom start u) : (viewOf t).timeless = (viewOf u).timeless := by
  have hlisteners : t.listeners.members = u.listeners.members := congrArg Audience.listeners h.audience
  change (⟨t.core.timeless.record, t.core.timeless.table.entries, t.core.timeless.mpdus,
    t.listeners.members.length⟩ : TrackerView) = _
  rw [h.core.timeless, hlisteners]
  rfl

/-- They answer questions alike, but for the one that refers to the latest transition. -/
theorem answer (h : t.AlikeFrom start u) (ht : t.Fit config) (hu : u.Fit config) (now : Number) (on : Sensing)
    {question : BandQuestion} (hquestion : question ≠ .timeSinceBusy) :
    t.answer now on question = u.answer now on question := by
  have hconfig : t.config = u.config := ht.config.trans hu.config.symm
  cases question with
  | state | isState => rw [Tracker.answer, Tracker.answer, hconfig, h.core.outcome_state]
  | timeToIdle => rw [Tracker.answer, Tracker.answer, hconfig, h.core.outcome_timeToIdle]
  | timeSinceBusy => exact absurd rfl hquestion

end AlikeFrom

/-- The radio of `t` is that of `u` under a mask, and the same observers hear of something else than state
changes. -/
structure Masks (asleep off : Bool) (t u : Tracker) : Prop where
  core : t.core.Masks asleep off u.core
  disposed : t.disposed = u.disposed
  audience : t.audience = u.audience

namespace Masks

/-- Energy that is accepted under the mask is accepted without it, and leaves the mask where it is. -/
theorem step (h : t.Masks asleep off u) (ht : t.Fit config) (hu : u.Fit config) (hdetects : x.Detects)
    (hx : x.HasFiniteThreshold config) (ha : (t.plan x).outcome = .ok ()) :
    (u.plan x).outcome = .ok () ∧ (t.after x).Masks asleep off (u.after x) := by
  obtain ⟨hfree, hp, hcore⟩ := ht.accepted hx ha
  have hp' := h.core.permitted ht.coherent hu.coherent hdetects (ht.isUsable hx) hp
  have ha' := hu.outcome_of_permitted (h.disposed ▸ hfree) hx hp'
  obtain ⟨-, -, hcore'⟩ := hu.accepted hx ha'
  refine ⟨ha', ?_, ?_, ?_⟩
  · rw [hcore, hcore']
    exact h.core.after ht.coherent hu.coherent hdetects (ht.isUsable hx) hp
  · rw [disposed_after, disposed_after, h.disposed]
  · rw [ht.audience_after ha, hu.audience_after ha', h.core.enactDeeds hdetects, h.audience]

/-- So does all energy that is detected while the mask is on. -/
theorem run {during : List Transition} (h : t.Masks asleep off u) (ht : t.Fit config) (hu : u.Fit config)
    (hdetects : ∀ x ∈ during, x.Detects) (hfinite : ∀ x ∈ during, x.HasFiniteThreshold config)
    (ha : t.AcceptsAll during) :
    u.AcceptsAll during ∧ (t.afterAll during).Masks asleep off (u.afterAll during) := by
  induction during generalizing t u with
  | nil => exact ⟨trivial, h⟩
  | cons x rest ih =>
    rw [List.forall_mem_cons] at hdetects hfinite
    obtain ⟨hx, hrest⟩ := h.step ht hu hdetects.1 hfinite.1 ha.1
    obtain ⟨hall, hend⟩ := ih hrest (ht.after x) (hu.after x) hdetects.2 hfinite.2 ha.2
    exact ⟨⟨hx, hall⟩, hend⟩

end Masks

/-! ### Cycles -/

variable {first last : Transition} {during : List Transition}

/-- What the first and the last transition of a cycle tell ends no subscription. -/
theorem foldl_notified_of_cycle (h : first.IsCycle during last) (config : Config) (core : Core)
    (a : Audience) :
    (tellingsOf (first.enactDeeds config core)).foldl Audience.notified a = a ∧
      (tellingsOf (last.enactDeeds config core)).foldl Audience.notified a = a := by
  cases h with
  | sleep hduring hduration | power hduration =>
    refine ⟨rfl, ?_⟩
    rw [Transition.enactDeeds, if_neg hduration]
    rfl

/-- Energy leaves receptions open. -/
theorem hasOpenReception_after (h : t.Fit config) (hdetects : x.Detects) (hx : x.HasFiniteThreshold config)
    (ha : (t.plan x).outcome = .ok ()) (now : Number) :
    (t.after x).core.record.hasOpenReception now = t.core.record.hasOpenReception now := by
  rw [(h.accepted hx ha).2.2]
  cases x with
  | detectEnergy time duration on isPrimary =>
    change ((Change.stamped time).applyToRecord (Core.sensed ..).record).hasOpenReception now = _
    rw [Core.record_sensed]
    rfl
  | _ => cases hdetects

theorem hasOpenReception_afterAll (h : t.Fit config) (hdetects : ∀ x ∈ during, x.Detects)
    (hfinite : ∀ x ∈ during, x.HasFiniteThreshold config) (ha : t.AcceptsAll during) (now : Number) :
    (t.afterAll during).core.record.hasOpenReception now = t.core.record.hasOpenReception now := by
  induction during generalizing t with
  | nil => rfl
  | cons x rest ih =>
    rw [List.forall_mem_cons] at hdetects hfinite
    rw [← hasOpenReception_after h hdetects.1 hfinite.1 ha.1]
    exact ih (h.after x) hdetects.2 hfinite.2 ha.2

/-- A cycle that is accepted leaves the tracker as if there had been nothing but the energy that was detected
meanwhile. -/
theorem Fit.cycle (h : t.Fit config) (hawake : t.core.record.powerState? = none)
    (hcycle : first.IsCycle during last)
    (hfinite : ∀ x ∈ first :: during ++ [last], x.HasFiniteThreshold config)
    (ha : t.AcceptsAll (first :: during ++ [last])) :
    t.AcceptsAll during ∧
      (t.afterAll (first :: during ++ [last])).AlikeFrom last.time (t.afterAll during) := by
  rw [List.cons_append, List.forall_mem_cons, List.forall_mem_append, List.forall_mem_singleton] at hfinite
  obtain ⟨hfirst, hduring, hlast⟩ := hfinite
  obtain ⟨hafirst, harest⟩ := ha
  obtain ⟨haduring, halast, -⟩ := (acceptsAll_append _ _ _).1 harest
  obtain ⟨asleep, off, hbegins, hends⟩ := hcycle.mask config
  obtain ⟨hcont, hcont'⟩ := hcycle.not_continues
  have hbegun : (t.after first).Masks asleep off t := by
    obtain ⟨-, hp, hcore⟩ := h.accepted hfirst hafirst
    refine ⟨?_, disposed_after t first, ?_⟩
    · rw [hcore]
      exact .begun h.coherent hawake (h.isUsable hfirst) hp hcont (hbegins _ hawake)
    · rw [h.audience_after hafirst, (foldl_notified_of_cycle hcycle config t.core _).1]
  obtain ⟨hall, hmasks⟩ := hbegun.run (h.after first) h hcycle.detects hduring haduring
  have ht := (h.after first).afterAll during
  have hu := h.afterAll during
  obtain ⟨-, hp, hcore⟩ := ht.accepted hlast halast
  have hsame : t.afterAll (first :: during ++ [last]) = ((t.after first).afterAll during).after last :=
    List.foldl_append
  refine ⟨hall, ?_⟩
  rw [hsame]
  refine ⟨?_, (disposed_after _ last).trans hmasks.disposed, ?_⟩
  · rw [hcore]
    exact hmasks.core.ended ht.coherent hu.coherent (ht.isUsable hlast) hp hcont'
      (hends _ _ hmasks.core.awake hmasks.core.timeless)
  · rw [ht.audience_after halast, (foldl_notified_of_cycle hcycle config _ _).2, hmasks.audience]

/-- Nothing is too early after a transition that is not a continuation, if it is not before its time. -/
theorem Fit.order_after (h : t.Fit config) (hx : x.HasFiniteThreshold config)
    (ha : (t.plan x).outcome = .ok ()) (hcont : ¬x.Continues) {now : Number} (hnow : now.isTime)
    (hle : x.time ≤ now) :
    ¬now < (t.after x).core.latest := by
  obtain ⟨-, hp, hcore⟩ := h.accepted hx ha
  have hlatest := (h.coherent.after hp (h.isUsable hx)).latest_value.1
  rw [Number.le_iff (Number.isFinite_of_isTime hp.time) (Number.isFinite_of_isTime hnow)] at hle
  rw [hcore, Number.lt_iff (Number.isFinite_of_isTime hnow) (Number.isFinite_of_isTime hlatest),
    h.coherent.latest_after hp (h.isUsable hx) hcont]
  exact hle.not_gt

/-- A reception that was open before a cycle can be ended after it, as long as it has not run out. -/
theorem Fit.reception_after_cycle (h : t.Fit config) (hawake : t.core.record.powerState? = none)
    (hcycle : first.IsCycle during last)
    (hfinite : ∀ x ∈ first :: during ++ [last], x.HasFiniteThreshold config)
    (ha : t.AcceptsAll (first :: during ++ [last])) (hends : x.EndsReception) (hargs : x.ArgumentsValid)
    (htime : x.time.isTime) (hle : last.time ≤ x.time) (hopen : t.core.record.hasOpenReception x.time) :
    ((t.afterAll (first :: during ++ [last])).plan x).outcome = .ok () := by
  obtain ⟨hall, halike⟩ := h.cycle hawake hcycle hfinite ha
  have ht := h.afterAll (first :: during)
  have hlast := ((acceptsAll_append t (first :: during) [last]).1 ha).2.1
  have hfinite' := hfinite last (List.mem_append_right _ List.mem_cons_self)
  have hsame : t.afterAll (first :: during ++ [last]) = (t.afterAll (first :: during)).after last :=
    List.foldl_append
  have horder := ht.order_after hfinite' hlast hcycle.not_continues.2 htime hle
  rw [← hsame] at horder
  have hfree : (t.afterAll (first :: during ++ [last])).disposed = false := by
    rw [hsame, disposed_after]
    exact (ht.accepted hfinite' hlast).1
  have hstill : (t.afterAll (first :: during ++ [last])).core.record.hasOpenReception x.time := by
    have hduring : ∀ x ∈ during, x.HasFiniteThreshold config := fun x hx =>
      hfinite x (List.mem_append_left _ (List.mem_cons_of_mem _ hx))
    rw [← hasOpenReception_afterAll h hcycle.detects hduring hall] at hopen
    change (t.afterAll during).core.timeless.record.hasOpenReception x.time at hopen
    rwa [← halike.core.timeless] at hopen
  cases x with
  | completeReception | loseReception | abortReception =>
    exact (h.afterAll _).outcome_of_permitted hfree (by rintro on ⟨⟩)
      ⟨htime, horder, by rintro on ⟨⟩, hargs, hstill⟩
  | _ => cases hends

end Tracker

/-! ### Answers -/

/-- Two results are the same, or both are refusals of the same kind. -/
inductive ResultAlike : Except Fault Value → Except Fault Value → Prop
  | same (r : Except Fault Value) : ResultAlike r r
  | refused {r r' : Refusal} (h : r.Alike r') : ResultAlike (.error (.refused r)) (.error (.refused r'))

/-- Plans that end alike are answered alike. -/
theorem EndAlike.result {r r' : Except Refusal Unit} (h : EndAlike r r') :
    ResultAlike ((r.mapError .refused).map fun _ => .nothing)
      ((r'.mapError .refused).map fun _ => .nothing) := by
  cases h with
  | ok v => exact .same _
  | refused h => exact .refused h

/-- The request was granted. -/
def Session.Answer.IsAccepted (a : Session.Answer) : Prop :=
  a.reply.result.isOk = true

/-- Two answers are alike: with results of the same kind, with the tracker in the same condition, and with the
same calls of observers besides those that tell of state changes. -/
structure Session.Answer.Alike (a b : Session.Answer) : Prop where
  result : ResultAlike a.reply.result b.reply.result
  tracker : a.reply.tracker.map TrackerView.timeless = b.reply.tracker.map TrackerView.timeless
  tellings : a.calls.filter ObserverCall.isTelling = b.calls.filter ObserverCall.isTelling

/-- Requests for transitions of the tracker that has a name. -/
def Request.transitions (name : String) (xs : List Transition) : List Request :=
  xs.map fun x => .tracker name (.transition x)

/-- The request is for a transition from `start` on, or it is a question of which the answer does not refer to
the latest transition. -/
def TrackerRequest.Follows (config : Config) (start : Number) : TrackerRequest → Prop
  | .transition x => x.HasFiniteThreshold config ∧ start ≤ x.time
  | .ask question _ _ => question ≠ .timeSinceBusy
  | _ => False

/-! ### Sessions -/

namespace Session

/-- A tracker that takes transitions is there under a name, and observers only listen. -/
structure Hosts (s : Session) (name : String) (i : Nat) (config : Config) (t : Tracker) : Prop
    extends s.Stands name i t where
  fit : t.Fit config

namespace Hosts
open Request

variable {s s' : Session} {name : String} {i : Nat} {config : Config} {start : Number} {t u : Tracker}

/-- A transition is granted if the tracker accepts it. -/
theorem step (h : s.Hosts name i config t) (x : Transition) :
    (s.step (.tracker name (.transition x))).2.Hosts name i config (t.after x) ∧
      ((s.step (.tracker name (.transition x))).1.IsAccepted ↔ (t.plan x).outcome = .ok ()) := by
  obtain ⟨hstands, -, hreply⟩ := h.step_transition x
  refine ⟨⟨hstands, h.fit.after x⟩, ?_⟩
  rw [Answer.IsAccepted, hreply]
  cases (t.plan x).outcome with
  | ok => exact iff_of_true rfl rfl
  | error r => exact iff_of_false Bool.false_ne_true (by rintro ⟨⟩)

/-- So are transitions in turn. -/
theorem run (h : s.Hosts name i config t) (xs : List Transition) :
    (s.after (transitions name xs)).Hosts name i config (t.afterAll xs) ∧
      ((∀ a ∈ s.run (transitions name xs), a.IsAccepted) ↔ t.AcceptsAll xs) := by
  induction xs generalizing s t with
  | nil => exact ⟨h, iff_of_true (fun a ha => absurd ha List.not_mem_nil) trivial⟩
  | cons x rest ih =>
    obtain ⟨hstep, haccepted⟩ := h.step x
    obtain ⟨hrest, hall⟩ := ih hstep
    exact ⟨hrest, List.forall_mem_cons.trans (and_congr haccepted hall)⟩

/-- Trackers that are alike answer a request alike and stay alike. -/
theorem step_alike (h : s.Hosts name i config t) (h' : s'.Hosts name i config u)
    (halike : t.AlikeFrom start u) {q : TrackerRequest} (hq : q.Follows config start) :
    (s.step (.tracker name q)).1.Alike (s'.step (.tracker name q)).1 ∧
      ∃ t' u', (s.step (.tracker name q)).2.Hosts name i config t' ∧
        (s'.step (.tracker name q)).2.Hosts name i config u' ∧ t'.AlikeFrom start u' := by
  cases q with
  | transition x =>
    obtain ⟨hx, hstart⟩ := hq
    obtain ⟨-, hcalls, hreply⟩ := h.step_transition x
    obtain ⟨-, hcalls', hreply'⟩ := h'.step_transition x
    have hafter := halike.step h.fit h'.fit hstart hx
    refine ⟨⟨?_, ?_, ?_⟩, t.after x, u.after x, (h.step x).1, (h'.step x).1, hafter⟩
    · rw [hreply, hreply']
      exact (halike.plan h.fit h'.fit hstart hx).1.result
    · rw [hreply, hreply']
      exact congrArg some hafter.view
    · rw [hcalls, hcalls']
      exact halike.calls h.fit h'.fit hstart hx
  | ask question now on =>
    obtain ⟨hstands, hcalls, hreply⟩ := h.step_ask question now on
    obtain ⟨hstands', hcalls', hreply'⟩ := h'.step_ask question now on
    refine ⟨⟨?_, ?_, ?_⟩, t, u, ⟨hstands, h.fit⟩, ⟨hstands', h'.fit⟩, halike⟩
    · rw [hreply, hreply', halike.answer h.fit h'.fit now on hq]
      exact .same _
    · rw [hreply, hreply']
    · rw [hcalls, hcalls']
  | _ => cases hq

/-- They answer all requests alike that follow. -/
theorem run_alike (h : s.Hosts name i config t) (h' : s'.Hosts name i config u) (halike : t.AlikeFrom start u)
    {later : List TrackerRequest} (hlater : ∀ q ∈ later, q.Follows config start) :
    List.Forall₂ Answer.Alike (s.run (later.map (.tracker name))) (s'.run (later.map (.tracker name))) := by
  induction later generalizing s s' t u with
  | nil => exact .nil
  | cons q rest ih =>
    rw [List.forall_mem_cons] at hlater
    obtain ⟨hfirst, t', u', ht', hu', hafter⟩ := h.step_alike h' halike hlater.1
    exact .cons hfirst (ih ht' hu' hafter hlater.2)

end Hosts

/-- Every tracker of a session that requests lead to takes transitions. -/
theorem fit_after (rs : List Request) {i : Nat} {t : Tracker}
    (ht : (({} : Session).after rs).trackers[i]? = some t) : t.Fit t.config := by
  obtain ⟨s₀, attempts, hstarts, -, hfree, htrials⟩ := trials_after rs ht
  obtain ⟨hcoherent, hresolution⟩ := (htrials.kept ⟨Core.coherent_fresh t.config, hstarts.resolution⟩
    fun core x h hp => Tracker.throughout_fit h.1 h.2 hp).1
  exact ⟨rfl, hfree, (orderly_after rs).sound i t ht, hcoherent, hresolution⟩

/-- In every session that requests lead to, where observers only listen, a cycle of a radio that is awake and
on is transparent. If all of it is accepted, so is the energy alone that is detected meanwhile, and whatever
is requested from the end of the cycle on has the same answers and calls the same observers, besides those
that hear of state changes. A reception that was open can still be ended. -/
theorem cycle_transparent {rs : List Request} {s : Session} {name : String} {i : Nat} {t : Tracker}
    {first last : Transition} {during : List Transition} (hs : s = ({} : Session).after rs)
    (hpassive : s.Passive) (hname : s.trackerNames.get? name = some i) (ht : s.trackers[i]? = some t)
    (hawake : t.core.record.powerState? = none) (hcycle : first.IsCycle during last)
    (hfinite : ∀ x ∈ first :: during ++ [last], x.HasFiniteThreshold t.config)
    (haccepted : ∀ a ∈ s.run (Request.transitions name (first :: during ++ [last])), a.IsAccepted) :
    (∀ a ∈ s.run (Request.transitions name during), a.IsAccepted) ∧
      (∀ later : List TrackerRequest, (∀ q ∈ later, q.Follows t.config last.time) →
        List.Forall₂ Answer.Alike
          ((s.after (Request.transitions name (first :: during ++ [last]))).run (later.map (.tracker name)))
          ((s.after (Request.transitions name during)).run (later.map (.tracker name)))) ∧
      ∀ x : Transition, x.EndsReception → x.ArgumentsValid → x.time.isTime → last.time ≤ x.time →
        t.core.record.hasOpenReception x.time →
          ((s.after (Request.transitions name (first :: during ++ [last]))).step
            (.tracker name (.transition x))).1.IsAccepted := by
  subst hs
  have hhosts : (({} : Session).after rs).Hosts name i t.config t :=
    ⟨⟨hpassive, hname, ht, (orderly_after rs).logs i t ht⟩, fit_after rs ht⟩
  obtain ⟨hcycled, hall⟩ := hhosts.run (first :: during ++ [last])
  obtain ⟨hplain, hduring⟩ := hhosts.run during
  have ha := hall.1 haccepted
  obtain ⟨hda, halike⟩ := hhosts.fit.cycle hawake hcycle hfinite ha
  refine ⟨hduring.2 hda, fun later => hcycled.run_alike hplain halike, ?_⟩
  intro x hends hargs htime hle hopen
  exact (hcycled.step x).2.2
    (hhosts.fit.reception_after_cycle hawake hcycle hfinite ha hends hargs htime hle hopen)

/-- A radio sleeps from ten to thirty, and energy is detected meanwhile. It can still give up the reception
that began before, its listener hears of that, and it is busy afterwards with what was detected. -/
theorem cycle_transparent_of_nap :
    let on : Sensing := ⟨⟨0, 63⟩, none⟩
    let during : List Transition := [.detectEnergy 20 60 on true]
    let nap : List Transition := .fallAsleep 10 on :: during ++ [.wakeUp 30 0 on false]
    let later : List TrackerRequest := [.transition (.abortReception 40 true), .ask .state 45 on]
    let s := ({} : Session).after [.tracker "radio" (.create none {}), .tracker "radio" (.register "mac"),
      .tracker "radio" (.transition (.receive 0 50 on))]
    List.Forall₂ Answer.Alike
        ((s.after (Request.transitions "radio" nap)).run (later.map (.tracker "radio")))
        ((s.after (Request.transitions "radio" during)).run (later.map (.tracker "radio"))) ∧
      ((s.after (Request.transitions "radio" nap)).step
        (.tracker "radio" (.transition (.abortReception 40 true)))).1.IsAccepted := by
  intro on during nap later s
  have hscripts : s.scripts.isEmpty = true := by decide +kernel
  have hpassive : s.Passive := by
    intro id occasion
    rw [scriptFor, List.isEmpty_iff.1 hscripts]
    rfl
  have hany : (s.trackers[0]?.any fun t : Tracker => t.config = {} && t.core.record.powerState? = none &&
      t.core.record.hasOpenReception 40) = true := by
    decide +kernel
  obtain ⟨t, ht, h⟩ := (Option.any_eq_true _ _).1 hany
  simp only [Bool.and_eq_true, decide_eq_true_iff] at h
  obtain ⟨⟨hconfig, hawake⟩, hopen⟩ := h
  have hfinite : ∀ x ∈ nap, x.HasFiniteThreshold t.config := by
    rw [hconfig]
    simp only [Transition.HasFiniteThreshold]
    decide +kernel
  have haccepted : ((s.run (Request.transitions "radio" nap)).all fun a => a.reply.result.isOk) = true := by
    decide +kernel
  have hdetects : ∀ x ∈ during, x.Detects := by
    rw [List.forall_mem_singleton]
    trivial
  obtain ⟨-, halike, hreception⟩ := cycle_transparent rfl hpassive (by decide +kernel) ht hawake
    (.sleep hdetects (by decide)) hfinite (List.all_eq_true.1 haccepted)
  have hlater : ∀ q ∈ later, q.Follows t.config 30 :=
    List.forall_mem_cons.2 ⟨⟨by rintro on ⟨⟩, by decide +kernel⟩, List.forall_mem_singleton.2 (by rintro ⟨⟩)⟩
  exact ⟨halike later hlater,
    hreception _ trivial trivial (by decide +kernel) (by decide +kernel) hopen⟩

end Session

end RadioOccupancy
