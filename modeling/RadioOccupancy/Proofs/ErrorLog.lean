import RadioOccupancy.Proofs.Explanation
import RadioOccupancy.Proofs.Influence

/-!
Which refusals leave an error in the log.

    request   steps:  report  change  announce  log
                                      (observers may log, too)
    refused   steps:  report  log ERROR |
    refused   steps:  report            |        for a band or a threshold

A request that is refused has carried out some steps. If it logs the refusal at all, that is its last step,
and none of the steps before it logs an error (`Act.logs_refusal_last`). It does not log that a band or a
threshold cannot be used, but for the question for the time to idleness, which logs everything about a
threshold.
-/

namespace RadioOccupancy

/-- The plan with another result. -/
def Plan.map {α β : Type} (f : α → β) (p : Plan α) : Plan β :=
  ⟨p.steps, p.outcome.map f⟩

theorem Plan.map_eq_ok {α β : Type} {f : α → β} {p : Plan α} {b : β} :
    (p.map f).outcome = .ok b ↔ ∃ a, p.outcome = .ok a ∧ f a = b := by
  obtain ⟨steps, r | a⟩ := p
  · exact ⟨nofun, nofun⟩
  · exact ⟨fun h => ⟨a, rfl, Except.ok.inj h⟩, fun ⟨_, ha, hf⟩ => by cases ha; exact congrArg Except.ok hf⟩

theorem Plan.map_eq_error {α β : Type} {f : α → β} {p : Plan α} {r : Refusal} (h : p.outcome = .error r) :
    (p.map f).outcome = .error r := by
  rw [map, h]
  rfl

/-- The plan of a question or a transition. -/
def Tracker.planFor? (t : Tracker) : TrackerRequest → Option (Plan Value)
  | .ask question now on => some <| match question with
    | .state => (Planning.plan (Query.state t.config now on) t.core).map .state
    | .isState s => (Planning.plan (Query.state t.config now on) t.core).map fun shown => .flag (shown = s)
    | .timeToIdle => (Planning.plan (Query.timeToIdle t.config now on) t.core).map .number
    | .timeSinceBusy => (Planning.plan (Query.timeSinceBusy t.config now on) t.core).map .number
  | .transition x => some ((t.plan x).map fun _ => .nothing)
  | _ => none

namespace TrackerRequest

/-- What a question or a transition logs of a refusal, if anything. -/
def logged? : TrackerRequest → Refusal → Option Log.Message
  | .ask question _ _, r => question.logged? r
  | _, r => r.logged?

/-- The request is the question for the time to idleness. -/
def AsksTimeToIdle (q : TrackerRequest) : Prop :=
  ∃ now on, q = .ask .timeToIdle now on

/-- The refusal is for a band, or for a threshold that others than the question for the time to idleness need.
-/
def Conceals (q : TrackerRequest) (r : Refusal) : Prop :=
  (∃ band, r.cause = .band band) ∨ r.IsOfThreshold ∧ ¬q.AsksTimeToIdle

/-- All other refusals are logged. -/
theorem logged?_eq_none_iff {q : TrackerRequest} {r : Refusal} : q.logged? r = none ↔ q.Conceals r := by
  obtain ⟨operation, cause⟩ := r
  have hother (h : ¬q.AsksTimeToIdle)
      (hq : q.logged? ⟨operation, cause⟩ = Refusal.logged? ⟨operation, cause⟩) :
      q.logged? ⟨operation, cause⟩ = none ↔ q.Conceals ⟨operation, cause⟩ := by
    rw [hq]
    cases cause <;> simp [Conceals, Refusal.logged?, Refusal.IsOfThreshold, h]
  cases q with
  | ask question now on =>
    by_cases hq : question = .timeToIdle
    · subst hq
      have h : AsksTimeToIdle (.ask .timeToIdle now on) := ⟨now, on, rfl⟩
      cases cause <;>
        simp [Conceals, logged?, BandQuestion.logged?, Refusal.logged?, Refusal.IsOfThreshold, h]
    · exact hother (fun ⟨_, _, h⟩ => hq (TrackerRequest.ask.inj h).1) (congrFun (question.logged?_eq hq) _)
  | _ => exact hother (fun ⟨_, _, h⟩ => nomatch h) rfl

/-- What is logged of a refusal is an error. -/
theorem level_of_logged? {q : TrackerRequest} {r : Refusal} {m : Log.Message} (h : q.logged? r = some m) :
    m.level = .error := by
  have hown (h : r.logged? = some m) : m.level = .error := by
    obtain ⟨operation, cause⟩ := r
    cases cause <;> cases h <;> rfl
  cases q with
  | ask question now on =>
    by_cases hq : question = .timeToIdle
    · subst hq
      obtain ⟨operation, cause⟩ := r
      cases cause <;> cases h <;> rfl
    · rw [logged?, question.logged?_eq hq] at h
      exact hown h
  | _ => exact hown h

end TrackerRequest

/-- No error is logged in a plan but what is logged of its refusal, and that comes last. -/
theorem Tracker.logsLast_planFor? {t : Tracker} {q : TrackerRequest} {p : Plan Value}
    (hp : t.planFor? q = some p) :
    Planning.LogsLast (Planning.errorOf? q.logged? p.outcome) p.steps := by
  have hmap {α : Type} {logged? : Refusal → Option Log.Message} {f : α → Value} {plan : Plan α}
      (h : Planning.LogsLast (Planning.errorOf? logged? plan.outcome) plan.steps) :
      Planning.LogsLast (Planning.errorOf? logged? (plan.map f).outcome) (plan.map f).steps := by
    obtain ⟨steps, _ | _⟩ := plan
    · exact h
    · exact h
  cases q with
  | ask question now on =>
    obtain rfl := Option.some.inj hp
    rw [show TrackerRequest.logged? (.ask question now on) = question.logged? from rfl]
    cases question with
    | timeToIdle => exact hmap ((Query.explains_timeToIdle _ _ _).plan _).1
    | state =>
      rw [BandQuestion.logged?_eq .state nofun]
      exact hmap ((Query.explains_state _ _ _).plan _).1
    | isState s =>
      rw [BandQuestion.logged?_eq (.isState s) nofun]
      exact hmap ((Query.explains_state _ _ _).plan _).1
    | timeSinceBusy =>
      rw [BandQuestion.logged?_eq .timeSinceBusy nofun]
      exact hmap ((Query.explains_timeSinceBusy _ _ _).plan _).1
  | transition x =>
    obtain rfl := Option.some.inj hp
    refine hmap ?_
    rw [Tracker.plan, unavailable?]
    by_cases hd : t.disposed
    · rw [if_pos hd]
      exact ⟨[], rfl, by simp⟩
    · rw [if_neg hd]
      by_cases ha : t.announcing ≠ 0
      · rw [if_pos ha]
        exact ⟨[], rfl, by simp⟩
      · rw [if_neg ha]
        exact ((Planning.explains_body t.config x).plan t.core).1
  | _ => cases hp

/-! ### What is written to the log -/

namespace Act

variable {i : Nat} {s s' : Session} {t : Tracker}

/-- A question or a transition is carried out as it is planned. -/
theorem ran_performOnTracker {respond : Respond} {q : TrackerRequest} {p : Plan Value}
    (ht : s.trackers[i]? = some t) (hp : t.planFor? q = some p) :
    (performOnTracker respond i q).ran s = (carryOut respond i p).ran s := by
  have hmap {α : Type} (f : α → Value) (plan : Plan α) :
      (carryOut respond i plan >>= fun a => pure (f a)) = carryOut respond i (plan.map f) := by
    obtain ⟨steps, outcome⟩ := plan
    rw [carryOut, carryOut, bind_assoc]
    cases outcome <;> rfl
  rw [performOnTracker, ran_bind, ran_tracker ht, onward]
  cases q with
  | ask question now on =>
    obtain rfl := Option.some.inj hp
    dsimp only
    rw [askTracker, ran_bind, ran_tracker ht, onward]
    cases question <;> exact congrArg (Act.ran · s) (hmap _ _)
  | transition x =>
    obtain rfl := Option.some.inj hp
    exact congrArg (Act.ran · s) (hmap _ _)
  | _ => cases hp

/-- An error that is written to a log is printed, whatever the level of the log. -/
theorem written_error {index : Nat} {l : Log} {m : Log.Message} (h : m.level = .error) (s : Session) :
    (written index l m s).events =
      s.events.push (.logged ({ m with timestamp := s.clock } : Log.Entry).line) := by
  have hprinted : (l.write s.clock m).1 = some { m with timestamp := s.clock } := by
    have henabled : l.enabled m.level = true := by
      rw [h, Log.enabled]
      cases l.level <;> rfl
    rw [Log.write, if_pos henabled]
  rw [written, hprinted]
  rfl

/-- The last message of a plan has been written to the log of the tracker, as it was after all the other
steps. -/
theorem written_of_last {depth : Nat} {first : List Step} {m : Log.Message} (ht : s.trackers[i]? = some t)
    (hcall : (carryOutSteps (respond depth) i (first ++ [.log m])).ran s = (.ok (), s')) :
    ∃ s₁ l, (carryOutSteps (respond depth) i first).ran s = (.ok (), s₁) ∧ s₁.logs[t.log]? = some l ∧
      s' = written t.log l m s₁ := by
  rw [carryOutSteps_append, ran_bind] at hcall
  rcases hfirst : (carryOutSteps (respond depth) i first).ran s with ⟨e | u, s₁⟩ <;> rw [hfirst] at hcall
  · cases hcall
  · obtain ⟨t₁, ht₁, hk⟩ := keeps_carryOutSteps (sparing_respond depth) ht hfirst
    have hlog : (write t.log m).ran s₁ = (.ok (), s') := by
      have hlast : (carryOutSteps (respond depth) i [.log m]).ran s₁ =
          (write t₁.log m >>= fun _ => pure ()).ran s₁ := by
        rw [carryOutSteps, carryOutStep, bind_assoc, ran_bind, ran_tracker ht₁]
        rfl
      rw [onward, hlast, bind_pure_unit, hk.log] at hcall
      exact hcall
    obtain ⟨l, hl, hwritten⟩ := written_of_ran_write (congrArg Prod.fst hlog)
    rw [hlog] at hwritten
    exact ⟨s₁, l, rfl, hl, hwritten⟩

/-- Steps in which no error is logged have no error among their messages. -/
theorem level_of_mem_messagesOf {steps : List Step} (h : ∀ step ∈ steps, ¬step.isError) {m : Log.Message}
    (hm : m ∈ messagesOf steps) : m.level ≠ .error := by
  obtain ⟨step, hstep, hsome⟩ := List.mem_filterMap.1 hm
  cases step with
  | log m' =>
    obtain rfl := Option.some.inj hsome
    simpa [Step.isError] using h _ hstep
  | change | announce => cases hsome

/-- Whatever a tracker has been asked before, and whatever its observers do: a question or a transition of
which no observer makes a failure ends as its plan does. If it succeeds, none of its messages is an error. If
it is refused for a band, or for a threshold that is not needed for the time to idleness, none is either. If
it is refused for anything else, one error is written to the log of the tracker and printed, after all else
that the request does. With no observers the log afterwards has the messages of the plan, and no others. -/
theorem logs_refusal_last {depth : Nat} {q : TrackerRequest} {p : Plan Value} (ht : s.trackers[i]? = some t)
    (hp : t.planFor? q = some p) :
    (∀ s', (carryOutSteps (respond depth) i p.steps).ran s = (.ok (), s') →
      (performOnTracker (respond depth) i q).ran s = (p.outcome.mapError .refused, s') ∧
      (∀ v, p.outcome = .ok v → ∀ m ∈ p.messages, m.level ≠ .error) ∧
      ∀ r, p.outcome = .error r →
        (q.Conceals r → ∀ m ∈ p.messages, m.level ≠ .error) ∧
        (¬q.Conceals r → ∃ first m s₁ l, p.steps = first ++ [.log m] ∧ m.level = .error ∧
          (∀ m ∈ messagesOf first, m.level ≠ .error) ∧
          (carryOutSteps (respond depth) i first).ran s = (.ok (), s₁) ∧ s₁.logs[t.log]? = some l ∧
          s'.logs[t.log]? = some (l.write s₁.clock m).2 ∧
          s'.events = s₁.events.push (.logged ({ m with timestamp := s₁.clock } : Log.Entry).line))) ∧
    (t.IsUnobserved → ∀ l, s.logs[t.log]? = some l →
      ∃ s', (performOnTracker (respond depth) i q).ran s = (p.outcome.mapError .refused, s') ∧
        s'.logs[t.log]? = some (l.writeAll s.clock p.messages)) := by
  have hquiet (h : Planning.LogsLast none p.steps) : ∀ m ∈ p.messages, m.level ≠ .error := fun m hm =>
    level_of_mem_messagesOf (Planning.LogsLast.none_iff.1 h) hm
  have hlast := Tracker.logsLast_planFor? hp
  refine ⟨fun s' hcall => ⟨?_, fun v hv => ?_, fun r hr => ⟨fun hc => ?_, fun hc => ?_⟩⟩,
    fun hfree l hl => ?_⟩
  · rw [ran_performOnTracker ht hp, ran_carryOut hcall]
  · rw [hv] at hlast
    exact hquiet hlast
  · rw [hr, Planning.errorOf?, TrackerRequest.logged?_eq_none_iff.2 hc] at hlast
    exact hquiet hlast
  · rw [hr, Planning.errorOf?] at hlast
    obtain ⟨m, hm⟩ := Option.ne_none_iff_exists'.1 (mt TrackerRequest.logged?_eq_none_iff.1 hc)
    have hlevel := TrackerRequest.level_of_logged? hm
    rw [hm] at hlast
    obtain ⟨first, hsteps, hfirst⟩ := hlast
    have hsteps : p.steps = first ++ [.log m] := hsteps
    rw [hsteps] at hcall
    obtain ⟨s₁, l, hran, hl, rfl⟩ := written_of_last ht hcall
    refine ⟨first, m, s₁, l, hsteps, hlevel, fun m hm => level_of_mem_messagesOf hfirst hm, hran, hl, ?_,
      written_error hlevel s₁⟩
    rw [written_eq]
    exact Array.getElem?_setIfInBounds_self_of_lt (Array.getElem?_eq_some_iff.1 hl).1
  · obtain ⟨s', -, hran, -, -, hlogs⟩ := @carryOut_unobserved_logs i (respond depth) s t l ht hfree hl p.steps
    exact ⟨s', by rw [ran_performOnTracker ht hp, ran_carryOut hran], hlogs⟩

/-- A reception is requested while the radio transmits. The refusal is logged, and nothing is after it. -/
theorem logs_refused_reception :
    ∃ s t p r s₁ s', ∃ m : Log.Message, let q : TrackerRequest := .transition (.receive 10 5 ⟨⟨0, 63⟩, none⟩)
      s.trackers[0]? = some t ∧ t.planFor? q = some p ∧ p.outcome = .error r ∧ ¬q.Conceals r ∧
        (performOnTracker (respond 1) 0 q).ran s = (.error (.refused r), s') ∧ m.level = .error ∧
        (s' : Session).events = (s₁ : Session).events.push
          (.logged ({ m with timestamp := s₁.clock } : Log.Entry).line) := by
  let x : Transition := .receive 10 5 ⟨⟨0, 63⟩, none⟩
  let t : Tracker :=
    { Tracker.first {} with
      core := { record := { tx := ⟨0, 50⟩ }, table := ⟨0.01, []⟩ }
      listeners := .register {} "mac" }
  let s : Session := { trackers := #[t] }
  let p : Plan Value := (t.plan x).map fun _ => .nothing
  have hrefused : (match p.outcome with
      | .error ⟨_, .stateUnmet .tx _⟩ => true
      | _ => false) = true := by decide
  have hcall : ((carryOutSteps (respond 1) 0 p.steps).ran s).1.isOk = true := by decide
  obtain ⟨hall, -⟩ := @logs_refusal_last 0 s t 1 (.transition x) p rfl rfl
  obtain ⟨hran, -, hrest⟩ := hall _ (ok_of_isOk hcall)
  split at hrefused
  · next operation allowed hout =>
    have hconceals : ¬TrackerRequest.Conceals (.transition x) ⟨operation, .stateUnmet .tx allowed⟩ := by
      simp [TrackerRequest.Conceals, Refusal.IsOfThreshold]
    obtain ⟨-, m, s₁, -, -, hlevel, -, -, -, -, hevents⟩ := (hrest _ hout).2 hconceals
    rw [hout] at hran
    exact ⟨s, t, p, _, s₁, _, m, rfl, rfl, hout, hconceals, hran, hlevel, hevents⟩
  · cases hrefused

end Act

/-- A tracker is asked for the state of the radio on a band that is none, and then with a threshold that is
not a number: both are refused, and nothing is logged. It is asked for the time to idleness with that
threshold, and there the refusal is logged. -/
theorem Session.refuses_without_error :
    let ask := fun question band threshold => Request.tracker "radio" (.ask question 0 ⟨band, threshold⟩)
    let refused : Session → Request → Bool := fun s r => match (s.step r).1.reply.result with
      | .error (.refused r) => r.code = .invalidArgument
      | _ => false
    let errors := fun (s : Session) r => (s.step r).2.logs.toList.map fun l => (l.entriesAt .error).length
    let s := firstUnder "radio"
    let noBand := ask .state ⟨5, 3⟩ none
    let noNumber := ask .state ⟨0, 63⟩ (some (0 / 0))
    let noDelay := ask .timeToIdle ⟨0, 63⟩ (some (0 / 0))
    refused s noBand ∧ errors s noBand = [0] ∧ refused s noNumber ∧ errors s noNumber = [0] ∧
      refused s noDelay ∧ errors s noDelay = [1] := by
  decide

end RadioOccupancy
