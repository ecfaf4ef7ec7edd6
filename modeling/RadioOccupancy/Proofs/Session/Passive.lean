import RadioOccupancy.Proofs.Audience
import RadioOccupancy.Proofs.Session.Runs

/-!
Observers that do nothing but listen.

    requested:   transition            getState     transition
    called:      mac  mac  collector   -            -
    scripts:     -    -                             -

Where no observer has a script for any occasion (`Session.Passive`), nothing can go wrong while a plan is
carried out, and everything that happens can be said in advance (`Act.plays_carryOutSteps`): what becomes of
the tracker and of its subscriptions, and who is called in which order. A request for a transition is then
answered as its plan ends (`Session.Stands.step_transition`), and a question by what the tracker remembers
(`Session.Stands.step_ask`).
-/

namespace RadioOccupancy

/-- The call that an event shows. -/
def Event.call? : Event → Option ObserverCall
  | .called c => some c
  | _ => none

namespace Session

/-- Observers do nothing when they are called. -/
def Passive (s : Session) : Prop :=
  ∀ id occasion, s.scriptFor id occasion = []

/-- The calls to observers that have been seen. -/
def calls (s : Session) : List ObserverCall :=
  s.events.toList.filterMap Event.call?

end Session

/-- The calls to observers that were seen while a request was carried out. -/
def Session.Answer.calls (a : Session.Answer) : List ObserverCall :=
  a.events.toList.filterMap Event.call?

namespace Tracker

/-- Who is called does not depend on what a tracker remembers or is doing. -/
theorem notified_note (t : Tracker) (core : Core) (announcing : Nat) (n : Notice) :
    ({ t with core, announcing } : Tracker).notified n = { t.notified n with core, announcing } := by
  cases n <;> rfl

theorem notifiedAll_note (t : Tracker) (core : Core) (announcing : Nat) (ns : List Notice) :
    ({ t with core, announcing } : Tracker).notifiedAll ns = { t.notifiedAll ns with core, announcing } := by
  induction ns generalizing t with
  | nil => rfl
  | cons n rest ih =>
    rw [notifiedAll, List.foldl_cons, notified_note]
    exact ih (t.notified n)

theorem callsOnAll_note (t : Tracker) (core : Core) (announcing : Nat) (ns : List Notice) :
    ({ t with core, announcing } : Tracker).callsOnAll ns = t.callsOnAll ns := by
  induction ns generalizing t with
  | nil => rfl
  | cons n rest ih =>
    rw [callsOnAll, callsOnAll, notified_note, ih (t.notified n)]
    cases n with
    | deliver delivery => cases delivery <;> rfl
    | _ => rfl

/-- Being told of something is not something that a tracker remembers. -/
theorem notifiedAll_unmarked (t : Tracker) (ns : List Notice) :
    t.notifiedAll ns = { t.notifiedAll ns with core := t.core, announcing := t.announcing } :=
  t.notifiedAll_note t.core t.announcing ns

/-- How a tracker answers a question about a band. -/
def answer (t : Tracker) (now : Number) (on : Sensing) : BandQuestion → Except Fault Value
  | .state => ((Planning.plan (Query.state t.config now on) t.core).outcome.mapError .refused).map .state
  | .isState state =>
    ((Planning.plan (Query.state t.config now on) t.core).outcome.mapError .refused).map
      fun shown => .flag (shown = state)
  | .timeToIdle =>
    ((Planning.plan (Query.timeToIdle t.config now on) t.core).outcome.mapError .refused).map .number
  | .timeSinceBusy =>
    ((Planning.plan (Query.timeSinceBusy t.config now on) t.core).outcome.mapError .refused).map .number

/-- A tracker after steps of a plan, if observers only listen. -/
def afterSteps (t : Tracker) (steps : List Step) : Tracker :=
  { t.notifiedAll (noticesOf steps) with core := coreAfter steps t.core }

theorem notifiedAll_append (t : Tracker) (ns ms : List Notice) :
    t.notifiedAll (ns ++ ms) = (t.notifiedAll ns).notifiedAll ms :=
  List.foldl_append

theorem callsOnAll_append (t : Tracker) (ns ms : List Notice) :
    t.callsOnAll (ns ++ ms) = t.callsOnAll ns ++ (t.notifiedAll ns).callsOnAll ms := by
  induction ns generalizing t with
  | nil => rfl
  | cons n rest ih =>
    rw [List.cons_append, callsOnAll, ih, callsOnAll, List.append_assoc]
    rfl

theorem afterSteps_announce (t : Tracker) (ns : List Notice) (steps : List Step) :
    t.afterSteps (.announce ns :: steps) = (t.notifiedAll ns).afterSteps steps := by
  have hns : noticesOf (.announce ns :: steps) = ns ++ noticesOf steps := rfl
  have hcore : (t.notifiedAll ns).core = t.core := by rw [notifiedAll_unmarked]
  rw [afterSteps, afterSteps, hns, notifiedAll_append, hcore]
  rfl

end Tracker

namespace Act

variable {α β : Type} {i : Nat}

/-- Log messages tell nothing and change nothing. -/
theorem quiet_of_logs {steps : List Step} (h : ∀ s ∈ steps, ∃ m, s = .log m) (core : Core) :
    noticesOf steps = [] ∧ RadioOccupancy.coreAfter steps core = core := by
  induction steps with
  | nil => exact ⟨rfl, rfl⟩
  | cons step rest ih =>
    obtain ⟨m, rfl⟩ := h step List.mem_cons_self
    exact ih fun s hs => h s (List.mem_cons_of_mem _ hs)

/-- The action ends with `r` wherever observers only listen. It makes `t'` of the tracker `t` at an index, and
leads to some calls. Names, scripts and the number of logs stay as they are. -/
def Plays (i : Nat) (x : Act α) (t : Tracker) (r : Except Fault α) (t' : Tracker)
    (calls : List ObserverCall) : Prop :=
  t'.log = t.log ∧ ∀ s : Session, s.Passive → s.trackers[i]? = some t → t.log < s.logs.size →
    ∃ s', x.ran s = (r, s') ∧ s'.trackers[i]? = some t' ∧ s'.trackerNames = s.trackerNames ∧
      s'.scripts = s.scripts ∧ s'.logs.size = s.logs.size ∧ s'.calls = s.calls ++ calls

/-- A message that is written to a log that is there changes neither names nor scripts, and calls nobody. -/
theorem ran_write_frame {index : Nat} {s : Session} (h : index < s.logs.size) (m : Log.Message) :
    ∃ s', (write index m).ran s = (.ok (), s') ∧ s'.trackerNames = s.trackerNames ∧
      s'.scripts = s.scripts ∧ s'.trackers = s.trackers ∧ s'.logs.size = s.logs.size ∧
        s'.calls = s.calls := by
  have hcalls : (written index s.logs[index] m s).calls = s.calls := by
    rw [written]
    rcases s.logs[index].write s.clock m with ⟨_ | e, l⟩
    · rfl
    · change (s.events.push (.logged e.line)).toList.filterMap Event.call? = _
      rw [Array.toList_push, List.filterMap_append]
      exact List.append_nil _
  refine ⟨_, ran_write_eq (Array.getElem?_eq_getElem h) m, ?_⟩
  rw [hcalls, written_eq]
  exact ⟨rfl, rfl, rfl, Array.size_setIfInBounds .., rfl⟩

namespace Plays

variable {x : Act α} {f : α → Act β} {t t₁ t₂ : Tracker} {c₁ c₂ : List ObserverCall}

theorem bind {a : α} {r : Except Fault β} (hx : Plays i x t (.ok a) t₁ c₁) (hf : Plays i (f a) t₁ r t₂ c₂) :
    Plays i (x >>= f) t r t₂ (c₁ ++ c₂) := by
  obtain ⟨hlog, hx⟩ := hx
  obtain ⟨hlog', hf⟩ := hf
  refine ⟨hlog'.trans hlog, fun s hs ht hlt => ?_⟩
  obtain ⟨s₁, hran, ht₁, hnames, hscripts, hsize, hcalls⟩ := hx s hs ht hlt
  have hs₁ : s₁.Passive := by
    intro id occasion
    rw [Session.scriptFor, hscripts]
    exact hs id occasion
  obtain ⟨s₂, hran', ht₂, hnames', hscripts', hsize', hcalls'⟩ := hf s₁ hs₁ ht₁ (by rwa [hlog, hsize])
  refine ⟨s₂, ?_, ht₂, hnames'.trans hnames, hscripts'.trans hscripts, hsize'.trans hsize, ?_⟩
  · rw [ran_bind, hran]
    exact hran'
  · rw [hcalls', hcalls, List.append_assoc]

theorem seq {y : Act β} {a : α} {r : Except Fault β} (hx : Plays i x t (.ok a) t₁ c₁)
    (hy : Plays i y t₁ r t₂ c₂) : Plays i (x >>= fun _ => y) t r t₂ (c₁ ++ c₂) :=
  hx.bind hy

/-- What is made of the result in the end. -/
theorem map {r : Except Fault α} (hx : Plays i x t r t₁ c₁) (f : α → β) :
    Plays i (x >>= fun a => Pure.pure (f a)) t (r.map f) t₁ c₁ := by
  refine ⟨hx.1, fun s hs ht hlt => ?_⟩
  obtain ⟨s₁, hran, hrest⟩ := hx.2 s hs ht hlt
  refine ⟨s₁, ?_, hrest⟩
  rw [ran_bind, hran]
  cases r <;> rfl

theorem pure (a : α) (t : Tracker) : Plays i (Pure.pure a) t (.ok a) t [] :=
  ⟨rfl, fun s _ ht _ => ⟨s, rfl, ht, rfl, rfl, rfl, (List.append_nil _).symm⟩⟩

theorem ofExcept (r : Except Fault α) (t : Tracker) : Plays i (ofExcept r) t r t [] :=
  ⟨rfl, fun s _ ht _ => ⟨s, ran_ofExcept r s, ht, rfl, rfl, rfl, (List.append_nil _).symm⟩⟩

/-- The tracker may be looked at. -/
theorem tracker_bind {f : Tracker → Act β} {r : Except Fault β} (h : Plays i (f t) t r t₂ c₂) :
    Plays i (tracker i >>= f) t r t₂ c₂ :=
  have hlook : Plays i (tracker i) t (.ok t) t [] :=
    ⟨rfl, fun s _ ht _ => ⟨s, ran_tracker ht, ht, rfl, rfl, rfl, (List.append_nil _).symm⟩⟩
  hlook.bind h

theorem modifyTracker {f : Tracker → Tracker} (t : Tracker) (hf : (f t).log = t.log) :
    Plays i (modifyTracker i f) t (.ok ()) (f t) [] :=
  ⟨hf, fun _ _ ht _ => ⟨_, rfl, getElem?_modifyTracker ht f, rfl, rfl, rfl, (List.append_nil _).symm⟩⟩

theorem modifyCollector (index : Nat) (f : Collector → Collector) (t : Tracker) :
    Plays i (modifyCollector index f) t (.ok ()) t [] :=
  ⟨rfl, fun _ _ ht _ => ⟨_, rfl, ht, rfl, rfl, rfl, (List.append_nil _).symm⟩⟩

/-- An action may be followed by a change of the tracker. -/
theorem ensuring {r : Except Fault α} {f : Tracker → Tracker} (h : Plays i x t r t₁ c₁)
    (hf : ∀ t, (f t).log = t.log) : Plays i (ensuring x fun s => s.modifyTracker i f) t r (f t₁) c₁ := by
  obtain ⟨hlog, hx⟩ := h
  refine ⟨(hf t₁).trans hlog, fun s hs ht hlt => ?_⟩
  obtain ⟨s₁, hran, ht₁, hnames, hscripts, hsize, hcalls⟩ := hx s hs ht hlt
  refine ⟨s₁.modifyTracker i f, ?_, getElem?_modifyTracker ht₁ f, hnames, hscripts, hsize, hcalls⟩
  exact congrArg (fun told : Except Fault α × Session => (told.1, told.2.modifyTracker i f)) hran

/-- A tracker writes to its log. -/
theorem write (t : Tracker) (m : Log.Message) : Plays i (write t.log m) t (.ok ()) t [] := by
  refine ⟨rfl, fun s _ ht hlt => ?_⟩
  obtain ⟨s', hran, hnames, hscripts, htrackers, hsize, hcalls⟩ := ran_write_frame hlt m
  exact ⟨s', hran, htrackers ▸ ht, hnames, hscripts, hsize, by rw [hcalls, List.append_nil]⟩

end Plays

/-! ### What observers hear -/

section Hearing

variable {depth : Nat} {t : Tracker}

/-- An observer that is called does nothing. -/
theorem plays_respond (c : ObserverCall) (t : Tracker) :
    Plays i (respond (depth + 1) c) t (.ok ()) t [c] := by
  refine ⟨rfl, fun s hs ht _ => ⟨s.see (.called c), ?_, ht, rfl, rfl, rfl, ?_⟩⟩
  · have hget :
        (get : Act Session).ran (s.see (.called c)) = (.ok (s.see (.called c)), s.see (.called c)) := rfl
    have hsee : (see (.called c)).ran s = (.ok (), s.see (.called c)) := rfl
    rw [respond, ran_bind, hsee, onward, ran_bind, hget, onward,
      show (s.see (.called c)).scriptFor c.id c.occasion = [] from hs _ _]
    rfl
  · rw [Session.calls, Session.see, Array.toList_push, List.filterMap_append]
    rfl

theorem plays_callListeners (call : ListenerCall) (t : Tracker) (members : List ObserverId) :
    Plays i (callListeners (respond (depth + 1)) call members) t (.ok ()) t
      (members.map (.listener · call)) := by
  induction members with
  | nil => exact .pure () t
  | cons id rest ih => exact (plays_respond (.listener id call) t).bind ih

theorem plays_callSubscriber (event : TraceEvent) (who : Subscriber) (t : Tracker) :
    Plays i (callSubscriber (respond (depth + 1)) event who) t (.ok ()) t (who.call? event).toList := by
  cases who with
  | observer id => exact plays_respond _ t
  | collector index => exact .modifyCollector index _ t

theorem plays_callSubscribers (event : TraceEvent) (entries : List Subscription) (t : Tracker) :
    Plays i (callSubscribers (respond (depth + 1)) i event entries) t (.ok ())
      { t with subscriptions := (t.subscriptions.claimAll entries).1 }
      ((t.subscriptions.claimAll entries).2.filterMap (·.call? event)) := by
  induction entries generalizing t with
  | nil => exact .pure () t
  | cons e rest ih =>
    refine .tracker_bind ?_
    cases hclaim : t.subscriptions.claim e with
    | none =>
      rw [Subscriptions.claimAll, hclaim]
      exact ih t
    | some subscriptions =>
      have hcalls (called : List Subscriber) : (e.subscriber :: called).filterMap (·.call? event) =
          (e.subscriber.call? event).toList ++ called.filterMap (·.call? event) := by
        rw [List.filterMap_cons]
        cases e.subscriber.call? event <;> rfl
      have hnote : Plays i (modifyTracker i fun t => { t with subscriptions }) t (.ok ())
          { t with subscriptions } [] := .modifyTracker t rfl
      rw [Subscriptions.claimAll, hclaim]
      dsimp only
      rw [hcalls]
      exact hnote.bind ((plays_callSubscriber event e.subscriber _).bind (ih { t with subscriptions }))

/-- A notice is heard by its observers. -/
theorem plays_giveNotice {before : Tracker} (hbefore : before.callbackFor = t.callbackFor) (n : Notice) :
    Plays i (giveNotice (respond (depth + 1)) i before n) t (.ok ()) (t.notified n) (t.callsOn n) := by
  cases n with
  | listeners call => exact .tracker_bind (plays_callListeners call t _)
  | trace event =>
    have hemit : Plays i (emit (respond (depth + 1)) i event) t
        (.ok !(t.subscriptions.ofKind event.kind).isEmpty) (t.notified (.trace event))
        (t.callsOn (.trace event)) := by
      rw [← List.append_nil (t.callsOn _)]
      exact .tracker_bind ((plays_callSubscribers event _ t).bind (.pure _ _))
    rw [← List.append_nil (t.callsOn _)]
    exact hemit.bind (.pure () _)
  | deliver delivery =>
    rw [giveNotice, hbefore, Tracker.callsOn]
    cases t.callbackFor delivery with
    | none => exact .pure () t
    | some id => exact plays_respond _ t

theorem plays_giveNotices {before : Tracker} (hbefore : before.callbackFor = t.callbackFor)
    (ns : List Notice) :
    Plays i (giveNotices (respond (depth + 1)) i before ns) t (.ok ()) (t.notifiedAll ns)
      (t.callsOnAll ns) := by
  induction ns generalizing t with
  | nil => exact .pure () t
  | cons n rest ih =>
    refine (plays_giveNotice hbefore n).bind (ih ?_)
    rw [hbefore]
    cases n <;> rfl

/-- An announcement is heard by its observers, and leaves no mark. -/
theorem plays_announce (ns : List Notice) (t : Tracker) :
    Plays i (announce (respond (depth + 1)) i ns) t (.ok ()) (t.notifiedAll ns) (t.callsOnAll ns) := by
  have hbefore : t.callbackFor = ({ t with announcing := t.announcing + 1 } : Tracker).callbackFor := by
    funext d
    cases d <;> rfl
  have htold : Plays i (announce (respond (depth + 1)) i ns) t _ _ _ :=
    .tracker_bind ((Plays.modifyTracker t rfl).bind ((plays_giveNotices hbefore ns).ensuring fun _ => rfl))
  rw [t.notifiedAll_note t.core, t.callsOnAll_note t.core] at htold
  rw [t.notifiedAll_unmarked]
  exact htold

/-- Steps of a plan are carried out to their end. -/
theorem plays_carryOutSteps (steps : List Step) (t : Tracker) :
    Plays i (carryOutSteps (respond (depth + 1)) i steps) t (.ok ()) (t.afterSteps steps)
      (t.callsOnAll (noticesOf steps)) := by
  induction steps generalizing t with
  | nil => exact .pure () t
  | cons step rest ih =>
    cases step with
    | change c =>
      have hnote : Plays i (carryOutStep (respond (depth + 1)) i (.change c)) t (.ok ())
          { t with core := c.apply t.core } [] := .modifyTracker t rfl
      have hrest := hnote.seq (ih { t with core := c.apply t.core })
      rw [Tracker.afterSteps, t.notifiedAll_note _ t.announcing, t.callsOnAll_note _ t.announcing] at hrest
      rw [Tracker.afterSteps, t.notifiedAll_unmarked]
      exact hrest
    | announce ns =>
      have htold : Plays i (carryOutStep (respond (depth + 1)) i (.announce ns)) t (.ok ()) (t.notifiedAll ns)
          (t.callsOnAll ns) := plays_announce ns t
      have hrest := htold.seq (ih (t.notifiedAll ns))
      rw [← t.callsOnAll_append, ← t.afterSteps_announce] at hrest
      exact hrest
    | log m =>
      have hlog : Plays i (carryOutStep (respond (depth + 1)) i (.log m)) t (.ok ()) t [] :=
        .tracker_bind (.write t m)
      exact hlog.bind (ih t)

/-- A plan is carried out, and ends as it does. -/
theorem plays_carryOut (plan : Plan α) (t : Tracker) :
    Plays i (carryOut (respond (depth + 1)) i plan) t (plan.outcome.mapError .refused)
      (t.afterSteps plan.steps) (t.callsOnAll (noticesOf plan.steps)) := by
  have hall := (@plays_carryOutSteps i depth plan.steps t).seq
    (.ofExcept (plan.outcome.mapError .refused) _)
  rwa [List.append_nil] at hall

/-- A question leaves the tracker as it is, and nobody hears of it. -/
theorem plays_ask {p : Planning α} (h : Planning.Asks p) (t : Tracker) :
    Plays i (carryOut (respond (depth + 1)) i (Planning.plan p t.core)) t
      ((Planning.plan p t.core).outcome.mapError .refused) t [] := by
  have hplays := @plays_carryOut α i depth (Planning.plan p t.core) t
  obtain ⟨hns, hcore⟩ := quiet_of_logs (h.plan t.core) t.core
  have hsame : t.afterSteps (Planning.plan p t.core).steps = t := by
    rw [Tracker.afterSteps, hns, hcore]
    rfl
  rwa [hns, hsame] at hplays

theorem plays_askTracker (question : BandQuestion) (now : Number) (on : Sensing) (t : Tracker) :
    Plays i (askTracker (respond (depth + 1)) i question now on) t (t.answer now on question) t [] := by
  refine .tracker_bind ?_
  cases question with
  | state => exact (plays_ask (Query.asks_state t.config now on) t).map _
  | isState state => exact (plays_ask (Query.asks_state t.config now on) t).map _
  | timeToIdle => exact (plays_ask (Query.asks_timeToIdle t.config now on) t).map _
  | timeSinceBusy => exact (plays_ask (Query.asks_timeSinceBusy t.config now on) t).map _

end Hearing

/-! ### Requests -/

/-- A request to a tracker is carried out on the tracker that has the name. -/
theorem ran_performTracker {respond : Respond} {s : Session} {name : String} {q : TrackerRequest}
    (hq : ∀ preset overrides, q ≠ .create preset overrides) (hname : s.trackerNames.get? name = some i) :
    (perform respond (.tracker name q)).ran s = (performOnTracker respond i q).ran s := by
  have hget : (get : Act Session).ran s = (.ok s, s) := rfl
  rw [perform, performTracker, ran_bind, hget, onward, ran_bind, ran_named hname]
  · rfl
  · exact hq

/-- It is answered with how that ends. -/
theorem ran_reply {respond : Respond} {s s' : Session} {name : String} {q : TrackerRequest}
    {r : Except Fault Value} (hq : ∀ preset overrides, q ≠ .create preset overrides)
    (hname : s.trackerNames.get? name = some i) (hran : (performOnTracker respond i q).ran s = (r, s')) :
    (reply (perform respond) (.tracker name q)).ran s =
      (.ok ⟨r, if q.showsTracker then s'.view? name else none⟩, s') := by
  have hattempt : (attempt (perform respond (.tracker name q))).ran s = (.ok r, s') :=
    congrArg (fun x : Except Fault Value × Session => (Except.ok x.1, x.2))
      ((ran_performTracker hq hname).trans hran)
  rw [reply, ran_bind, hattempt]
  rfl

end Act

namespace Session

/-- A tracker is there under a name, with the log that it writes to, and observers only listen. -/
structure Stands (s : Session) (name : String) (i : Nat) (t : Tracker) : Prop where
  passive : s.Passive
  named : s.trackerNames.get? name = some i
  tracker : s.trackers[i]? = some t
  log : t.log < s.logs.size

namespace Stands

variable {s : Session} {name : String} {i : Nat} {t : Tracker}

/-- What a request does that is carried out on the tracker. -/
theorem step_of_plays (h : s.Stands name i t) {q : TrackerRequest} {r : Except Fault Value} {t' : Tracker}
    {calls : List ObserverCall} (hq : ∀ preset overrides, q ≠ .create preset overrides)
    (hplays : Act.Plays i (Act.performOnTracker (Act.respond nestingLimit) i q) t r t' calls) :
    (s.step (.tracker name q)).2.Stands name i t' ∧ (s.step (.tracker name q)).1.calls = calls ∧
      (s.step (.tracker name q)).1.reply = ⟨r, if q.showsTracker then some (viewOf t') else none⟩ := by
  obtain ⟨hlog, hplays⟩ := hplays
  obtain ⟨s', hran, ht', hnames, hscripts, hsize, hcalls⟩ :=
    hplays { s with events := #[] } h.passive h.tracker h.log
  have hnamed : ({ s with events := #[] } : Session).trackerNames.get? name = some i := h.named
  have hview : s'.view? name = some (viewOf t') := by
    rw [view?, hnames, hnamed]
    change s'.trackers[i]? >>= _ = _
    rw [ht']
    rfl
  have hstep : s.step (.tracker name q) =
      (⟨⟨r, if q.showsTracker then some (viewOf t') else none⟩, s'.events⟩, s') := by
    have hreply := Act.ran_reply hq hnamed hran
    rw [hview] at hreply
    have hby : s.step (.tracker name q) =
        s.stepBy (Act.perform (Act.respond nestingLimit)) (.tracker name q) := rfl
    rw [hby, stepBy, hreply]
  rw [hstep]
  refine ⟨⟨?_, hnames ▸ h.named, ht', ?_⟩, hcalls, rfl⟩
  · intro id occasion
    rw [scriptFor, hscripts]
    exact h.passive id occasion
  · rw [hlog, hsize]
    exact h.log

/-- A transition is answered as its plan ends. Observers hear what the plan tells. -/
theorem step_transition (h : s.Stands name i t) (x : Transition) :
    (s.step (.tracker name (.transition x))).2.Stands name i (t.afterSteps (t.plan x).steps) ∧
      (s.step (.tracker name (.transition x))).1.calls = t.callsOnAll (noticesOf (t.plan x).steps) ∧
      (s.step (.tracker name (.transition x))).1.reply =
        ⟨((t.plan x).outcome.mapError .refused).map fun _ => .nothing,
          some (viewOf (t.afterSteps (t.plan x).steps))⟩ := by
  refine h.step_of_plays (fun _ _ => by rintro ⟨⟩) (.tracker_bind ?_)
  exact (@Act.plays_carryOut _ i 999 (t.plan x) t).map _

/-- A question is answered by what the tracker remembers. -/
theorem step_ask (h : s.Stands name i t) (question : BandQuestion) (now : Number) (on : Sensing) :
    (s.step (.tracker name (.ask question now on))).2.Stands name i t ∧
      (s.step (.tracker name (.ask question now on))).1.calls = [] ∧
      (s.step (.tracker name (.ask question now on))).1.reply = ⟨t.answer now on question, none⟩ :=
  h.step_of_plays (fun _ _ => by rintro ⟨⟩)
    (.tracker_bind (@Act.plays_askTracker i 999 question now on t))

end Stands

end Session

end RadioOccupancy
