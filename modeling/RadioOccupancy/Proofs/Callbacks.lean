import RadioOccupancy.Proofs.Delivery
import RadioOccupancy.Proofs.OwnReport

/-!
The callbacks that transitions call, whatever observers do.

    complete:   report   change   announce [listeners, subscribers, deliver]   log
    called               mac fails |                                                 nobody
                         mac, app, a subscriber, and the callback                    once

A transition calls a callback where it gives a notice of a delivery, if a callback is set for it and everyone
who is told before has come to an end. `Act.callbacks` lists these calls for steps that are carried out, up to
an observer that fails, and no other calls to callbacks are made (`Act.mem_callbacks_iff`). Each of them is
one of the deliveries of the steps, in their order (`Act.callbacks_sublist`). So along a course of events
there are no more of them than receptions that have begun (`Session.Starts.delivers_once`).
-/

namespace RadioOccupancy

namespace Act

/-- The callback that a notice calls, if one was set for it when the announcement began. -/
def callback? (before : Tracker) : Notice → Option (ObserverId × Delivery)
  | .deliver d => (before.callbackFor d).map fun id => (id, d)
  | .listeners _ | .trace _ => none

/-- The callbacks that are called while notices are given. -/
def callbacksOf (respond : Respond) (i : Nat) (before : Tracker) :
    List Notice → Session → List (ObserverId × Delivery)
  | [], _ => []
  | n :: rest, s =>
    (callback? before n).toList ++
      match (giveNotice respond i before n).ran s with
      | (.ok (), s') => callbacksOf respond i before rest s'
      | (.error _, _) => []

/-- The callbacks that are called while a step is carried out. -/
def callbacksIn (respond : Respond) (i : Nat) (s : Session) : Step → List (ObserverId × Delivery)
  | .announce ns =>
    match s.trackers[i]? with
    | some t => callbacksOf respond i t ns
      (s.modifyTracker i fun t => { t with announcing := t.announcing + 1 })
    | none => []
  | .change _ | .log _ => []

/-- The callbacks that are called while steps are carried out. -/
def callbacks (respond : Respond) (i : Nat) : List Step → Session → List (ObserverId × Delivery)
  | [], _ => []
  | step :: rest, s =>
    callbacksIn respond i s step ++
      match (carryOutStep respond i step).ran s with
      | (.ok (), s') => callbacks respond i rest s'
      | (.error _, _) => []

variable {respond : Respond} {i : Nat} {before : Tracker} {ns : List Notice} {steps : List Step}
  {s s' : Session} {id : ObserverId} {d : Delivery}

/-! ### They are all the calls to callbacks -/

theorem mem_callbacksOf_iff :
    (id, d) ∈ callbacksOf respond i before ns s ↔ ∃ s', Calls respond i before (.delivery id d) s' ns s := by
  induction ns generalizing s with
  | nil =>
    refine iff_of_false List.not_mem_nil ?_
    rintro ⟨s', ⟨⟩⟩
  | cons n rest ih =>
    rw [callbacksOf, List.mem_append, Option.mem_toList]
    constructor
    · rintro (hcallback | hrest)
      · cases n with
        | listeners | trace => cases hcallback
        | deliver d' =>
          obtain ⟨id', hid, heq⟩ := Option.map_eq_some_iff.1 hcallback
          obtain ⟨rfl, rfl⟩ := Prod.mk.inj heq
          exact ⟨s, .callback hid rfl rfl⟩
      · split at hrest
        · next s₁ hn =>
          obtain ⟨s', h⟩ := ih.1 hrest
          exact ⟨s', .later hn h⟩
        · cases hrest
    · rintro ⟨s', h⟩
      cases h with
      | listener _ _ hc | subscriber _ _ _ _ _ _ hc => cases hc
      | callback hid hc =>
        obtain ⟨rfl, rfl⟩ := ObserverCall.delivery.inj hc
        exact Or.inl (Option.map_eq_some_iff.2 ⟨id, hid, rfl⟩)
      | later hn h =>
        rw [hn]
        exact Or.inr (ih.2 ⟨s', h⟩)

/-- A callback is listed just if it is called in some session while the steps are carried out. -/
theorem mem_callbacks_iff :
    (id, d) ∈ callbacks respond i steps s ↔ ∃ s', CallsAmid respond i (.delivery id d) s' steps s := by
  induction steps generalizing s with
  | nil =>
    refine iff_of_false List.not_mem_nil ?_
    rintro ⟨s', ⟨⟩⟩
  | cons step rest ih =>
    rw [callbacks, List.mem_append]
    constructor
    · rintro (hfirst | hrest)
      · cases step with
        | change | log => cases hfirst
        | announce ns =>
          rw [callbacksIn] at hfirst
          split at hfirst
          · next t ht =>
            obtain ⟨s', h⟩ := mem_callbacksOf_iff.1 hfirst
            exact ⟨s', .announce ht h⟩
          · cases hfirst
      · split at hrest
        · next s₁ hstep =>
          obtain ⟨s', h⟩ := ih.1 hrest
          exact ⟨s', .later hstep h⟩
        · cases hrest
    · rintro ⟨s', h⟩
      cases h with
      | announce ht h =>
        rw [callbacksIn, ht]
        exact Or.inl (mem_callbacksOf_iff.2 ⟨s', h⟩)
      | later hstep h =>
        rw [hstep]
        exact Or.inr (ih.2 ⟨s', h⟩)

/-! ### Each of them is a delivery -/

theorem callbacksOf_sublist :
    ((callbacksOf respond i before ns s).map Prod.snd).Sublist (ns.filterMap Notice.delivery?) := by
  induction ns generalizing s with
  | nil => exact .slnil
  | cons n rest ih =>
    rw [callbacksOf, List.map_append, ← List.singleton_append, List.filterMap_append]
    refine List.Sublist.append ?_ ?_
    · cases n with
      | listeners | trace => exact .slnil
      | deliver d =>
        rw [callback?]
        cases before.callbackFor d with
        | none => exact List.nil_sublist _
        | some id => exact .refl _
    · split
      · exact ih
      · exact List.nil_sublist _

/-- The callbacks that are called deliver some of what the steps deliver, each delivery once at most. -/
theorem callbacks_sublist : ((callbacks respond i steps s).map Prod.snd).Sublist (deliveriesOf steps) := by
  induction steps generalizing s with
  | nil => exact .slnil
  | cons step rest ih =>
    rw [callbacks, List.map_append, show step :: rest = [step] ++ rest from rfl, deliveriesOf_append]
    refine List.Sublist.append ?_ ?_
    · cases step with
      | change | log => exact .slnil
      | announce ns =>
        rw [callbacksIn, deliveriesOf, noticesOf_announce]
        split
        · exact callbacksOf_sublist
        · exact List.nil_sublist _
    · split
      · exact ih
      · exact List.nil_sublist _

/-- After a step that fails nobody is called. -/
theorem callbacks_of_cut {done rest : List Step} {step : Step} {s₁ : Session} {e : Fault}
    (hdone : (carryOutSteps respond i done).ran s = (.ok (), s₁))
    (hcut : (carryOutStep respond i step).ran s₁ = (.error e, s')) :
    callbacks respond i (done ++ step :: rest) s = callbacks respond i (done ++ [step]) s := by
  induction done generalizing s with
  | nil =>
    obtain ⟨-, rfl⟩ := Prod.mk.inj hdone
    rw [List.nil_append, List.nil_append, callbacks, callbacks, hcut]
  | cons first done ih =>
    obtain ⟨⟨⟩, s₂, hfirst, hdone⟩ := ok_of_bind hdone
    rw [List.cons_append, List.cons_append, callbacks, callbacks, hfirst]
    exact congrArg _ (ih hdone)

end Act

/-! ### Whole courses -/

/-- A course of events in a session, with the callbacks that the attempts at the tracker at an index call. -/
inductive Session.CallsBack (i : Nat) (s : Session) :
    List Attempt → List (ObserverId × Delivery) → Session → Prop
  /-- nothing has happened yet -/
  | nil : CallsBack i s [] [] s
  /-- a transition is requested, and no observer fails -/
  | call {attempts : List Attempt} {calls : List (ObserverId × Delivery)} {depth : Nat} {s₁ s₂ : Session}
      {t : Tracker} {x : Transition} (h : CallsBack i s attempts calls s₁) (ht : s₁.trackers[i]? = some t)
      (hcall : (Act.carryOutSteps (Act.respond depth) i (t.plan x).steps).ran s₁ = (.ok (), s₂)) :
      CallsBack i s (attempts ++ [⟨t, x, (t.plan x).steps, none⟩])
        (calls ++ Act.callbacks (Act.respond depth) i (t.plan x).steps s₁) s₂
  /-- a transition is requested, and an observer fails in one of the steps -/
  | cut {attempts : List Attempt} {calls : List (ObserverId × Delivery)} {depth : Nat} {s₁ s₂ s₃ : Session}
      {t : Tracker} {x : Transition} {done rest : List Step} {step : Step} {e : Fault}
      (h : CallsBack i s attempts calls s₁) (ht : s₁.trackers[i]? = some t)
      (hsteps : (t.plan x).steps = done ++ step :: rest)
      (hdone : (Act.carryOutSteps (Act.respond depth) i done).ran s₁ = (.ok (), s₂))
      (hcut : (Act.carryOutStep (Act.respond depth) i step).ran s₂ = (.error e, s₃)) :
      CallsBack i s (attempts ++ [⟨t, x, done, some step⟩])
        (calls ++ Act.callbacks (Act.respond depth) i (t.plan x).steps s₁) s₃
  /-- something else happens that leaves alone what the tracker remembers -/
  | meanwhile {attempts : List Attempt} {calls : List (ObserverId × Delivery)} {s₁ s₂ : Session}
      (h : CallsBack i s attempts calls s₁) (hkeep : KeepsAt i s₁ s₂) : CallsBack i s attempts calls s₂

namespace Session

variable {i : Nat} {s s' : Session} {attempts : List Attempt} {calls : List (ObserverId × Delivery)}

/-- In every course of events some callbacks are called, or none. -/
theorem Course.callsBack (h : Course i s attempts s') : ∃ calls, CallsBack i s attempts calls s' := by
  induction h with
  | nil => exact ⟨[], .nil⟩
  | call _ ht hcall ih => exact ih.elim fun _ h => ⟨_, .call h ht hcall⟩
  | cut _ ht hsteps hdone hcut ih => exact ih.elim fun _ h => ⟨_, .cut h ht hsteps hdone hcut⟩
  | meanwhile _ hkeep ih => exact ih.imp fun _ h => .meanwhile h hkeep

/-- They deliver some of what the attempts deliver. -/
theorem CallsBack.sublist (h : CallsBack i s attempts calls s') :
    (calls.map Prod.snd).Sublist (attempts.flatMap Attempt.deliveries) := by
  induction h with
  | nil => exact .slnil
  | call _ _ _ ih =>
    rw [List.map_append, List.flatMap_append, List.flatMap_singleton, Attempt.deliveries, Attempt.begun,
      Option.toList_none, List.append_nil]
    exact ih.append Act.callbacks_sublist
  | cut _ _ hsteps hdone hcut ih =>
    rw [List.map_append, List.flatMap_append, List.flatMap_singleton, Attempt.deliveries, Attempt.begun,
      Option.toList_some, hsteps, Act.callbacks_of_cut hdone hcut]
    exact ih.append Act.callbacks_sublist
  | meanwhile _ _ ih => exact ih

end Session

/-- In every course of a session in which a tracker begins, whatever observers do and whether they fail: each
end of a reception that takes effect ends one that has begun and that nothing else has ended since. Callbacks
are called for deliveries that attempts have begun, for each of these once at most, and there are no more of
these than receptions that have begun. An end that is accepted and that no observer breaks off tells each
listener, each packet event and the one callback in turn. -/
theorem Session.Starts.delivers_once {s : Session} {i : Nat} {config : Config}
    (hs : s.Starts i config) :
    (∀ rs : List Request, ∃ attempts,
      Course i s attempts (s.after rs)) ∧
    (∀ attempts s', Course i s attempts s' →
      (∀ before a after, attempts = before ++ a :: after → a.tookEffect = true →
        a.transition.endsReception = true → OpenReception before) ∧
      (attempts.flatMap Attempt.deliveries).length ≤
        attempts.countP (fun a => a.tookEffect && a.transition.beginsReception) ∧
      (∃ calls, CallsBack i s attempts calls s') ∧
      ∀ calls, CallsBack i s attempts calls s' →
        (calls.map Prod.snd).Sublist (attempts.flatMap Attempt.deliveries) ∧
        calls.length ≤ attempts.countP fun a => a.tookEffect && a.transition.beginsReception) ∧
    ∀ attempts s₁, Course i s attempts s₁ → ∀ depth t x e s₂, s₁.trackers[i]? = some t →
      x.ending? = some e → (t.plan x).outcome = .ok () →
        (Act.carryOutSteps (Act.respond depth) i (t.plan x).steps).ran s₁ = (.ok (), s₂) →
          Act.MakesKnown (Act.respond depth) i t x.time e s₁ s₂ := by
  refine ⟨course_steps i s, fun attempts s' hcourse => ?_, fun attempts s₁ _ depth t x e s₂ ht he ha => ?_⟩
  · obtain ⟨t, -, -, -, htrials⟩ := hcourse.trials hs
    have hle : (attempts.flatMap Attempt.deliveries).length ≤ attempts.countP _ :=
      (Nat.le_add_right _ _).trans (htrials.deliveries_le rfl)
    refine ⟨?_, hle, hcourse.callsBack, fun calls hcalls => ⟨hcalls.sublist, ?_⟩⟩
    · rintro before a after rfl htook hends
      exact htrials.ended_open rfl htook hends
    · rw [← List.length_map Prod.snd]
      exact hcalls.sublist.length_le.trans hle
  · exact Act.makesKnown_of_accepted (Act.sparing_respond depth) ht he ha

/-- A frame of two packets is received, the second of them badly. A listener hears of its end, and the one
callback that is set is called once, as one reception has begun. -/
theorem Session.delivers_once_of_two_packets :
    ∃ a b calls s₁ s₂ e, Course 0 (firstUnder "radio") [a] s₁ ∧ Course 0 (firstUnder "radio") [a, b] s₂ ∧
      CallsBack 0 (firstUnder "radio") [a, b] calls s₂ ∧ calls.map Prod.fst = ["upper"] ∧
      b.tookEffect = true ∧ b.transition.ending? = some e ∧ e.packets.length = 1 ∧
        OpenReception [a] ∧
          ([a, b].flatMap Attempt.deliveries).length ≤
            [a, b].countP (fun a => a.tookEffect && a.transition.beginsReception) ∧
          calls.length ≤ [a, b].countP (fun a => a.tookEffect && a.transition.beginsReception) ∧
          Act.MakesKnown (Act.respond 1) 0 b.tracker 50 e s₁ s₂ := by
  let observed : Tracker → Tracker := fun t =>
    { t with listeners := t.listeners.register "mac", okCallback := some "upper" }
  let s₀ := (firstUnder "radio").modifyTracker 0 observed
  let t₀ := observed (.first {})
  let x : Transition := .receive 0 50 ⟨⟨0, 63⟩, none⟩
  let y : Transition := .completeReception 50 ⟨[⟨1, 100⟩, ⟨2, 100⟩], true⟩ ⟨20, -60⟩
    ⟨"OfdmRate6Mbps", .long, 0, 20⟩ 1 [true, false]
  let s₁ := ((Act.carryOutSteps (Act.respond 1) 0 (t₀.plan x).steps).ran s₀).2
  have hfirst : ((Act.carryOutSteps (Act.respond 1) 0 (t₀.plan x).steps).ran s₀).1.isOk = true := by
    decide +kernel
  have hany : (s₁.trackers[0]?.any fun t => (t.plan y).outcome.isOk && writeRecord (t.plan y).steps &&
      ((Act.carryOutSteps (Act.respond 1) 0 (t.plan y).steps).ran s₁).1.isOk &&
      decide (([] ++ Act.callbacks (Act.respond 1) 0 (t₀.plan x).steps s₀ ++
        Act.callbacks (Act.respond 1) 0 (t.plan y).steps s₁).map Prod.fst = ["upper"])) = true := by
    decide +kernel
  obtain ⟨t₁, ht₁, hsecond⟩ := (Option.any_eq_true _ _).1 hany
  rw [Bool.and_eq_true, Bool.and_eq_true, Bool.and_eq_true] at hsecond
  obtain ⟨⟨⟨haccepted, htook⟩, hsecond⟩, hcallback⟩ := hsecond
  have hobserved (t : Tracker) : t.Keeps (observed t) := ⟨rfl, rfl, rfl, rfl⟩
  have hcourse₀ : Course 0 (firstUnder "radio") [] s₀ := .meanwhile .nil (.modifyTracker hobserved 0 _)
  have hcourse₁ := hcourse₀.call (t := t₀) rfl (Act.ok_of_isOk hfirst)
  have hcourse₂ := hcourse₁.call ht₁ (Act.ok_of_isOk hsecond)
  have hcalls₀ : CallsBack 0 (firstUnder "radio") [] [] s₀ := .meanwhile .nil (.modifyTracker hobserved 0 _)
  have hcalls₂ := (hcalls₀.call (t := t₀) rfl (Act.ok_of_isOk hfirst)).call ht₁ (Act.ok_of_isOk hsecond)
  obtain ⟨-, hall, htells⟩ := (starts_firstUnder "radio").delivers_once
  obtain ⟨hended, hle, -, hcalls⟩ := hall _ _ hcourse₂
  exact ⟨_, _, _, _, _, _, hcourse₁, hcourse₂, hcalls₂, of_decide_eq_true hcallback, htook, rfl, rfl,
    hended [_] _ [] rfl htook rfl, hle, (hcalls _ hcalls₂).2,
    htells _ _ hcourse₁ _ _ _ _ _ ht₁ rfl (Act.eq_ok_of_isOk haccepted) (Act.ok_of_isOk hsecond)⟩

end RadioOccupancy
