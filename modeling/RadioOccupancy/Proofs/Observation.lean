import RadioOccupancy.Proofs.Interruption
import RadioOccupancy.Proofs.Ledger
import RadioOccupancy.Proofs.Masking
import RadioOccupancy.Proofs.Session.Passive
import RadioOccupancy.Proofs.Session.Unfailing

/-!
What observers see when they look at the radio while they are being told of a transition.

    receive:   report   change   announce |
                                  called, asks, asks
    wake up:   report   change   announce |  busy
                                  called, asks

An observer may ask what it likes while it is called. What it is answered is what the tracker remembers just
then, and not what it will remember when the transition is over. Still, the answers are the same for most
transitions: once they have reported, they make all changes before they tell anything. For the others the
answers differ just if the transition has a change left to make (`Act.observer_sees_outcome_iff`).

`Calls` says in which sessions observers are called while notices are given. It leaves no call out: observers
that respond alike in all of them make no difference (`Act.ran_giveNotices_congr`).
-/

namespace RadioOccupancy

/-! ### Questions -/

namespace Act

variable {i : Nat} {s : Session} {t : Tracker} (respond : Respond)

/-- Log messages are written without fail. -/
theorem unfailing_carryOutLogs : ∀ steps : List Step, (∀ step ∈ steps, ∃ m, step = .log m) →
    (carryOutSteps respond i steps).Unfailing i
  | [], _ => unfailing_pure _
  | step :: rest, h => by
    obtain ⟨m, rfl⟩ := h step List.mem_cons_self
    exact (unfailing_log i m).then fun _ =>
      unfailing_carryOutLogs rest fun step hstep => h step (List.mem_cons_of_mem _ hstep)

/-- A question is answered as its plan ends. -/
theorem ran_carryOut_asks {α : Type} {p : Planning α} (hp : Planning.Asks p) (hs : s.HasLog i) (core : Core) :
    ∃ s', (carryOut respond i (Planning.plan p core)).ran s =
      ((Planning.plan p core).outcome.mapError .refused, s') := by
  obtain ⟨⟨⟩, s', hran, -⟩ := unfailing_carryOutLogs respond _ (hp.plan core) s hs
  exact ⟨s', ran_carryOut hran⟩

/-- A question about a band is answered by what the tracker remembers. -/
theorem ran_ask (hs : s.HasLog i) (ht : s.trackers[i]? = some t) (question : BandQuestion) (now : Number)
    (on : Sensing) :
    ((performOnTracker respond i (.ask question now on)).ran s).1 = t.answer now on question := by
  rw [performOnTracker, ran_bind, ran_tracker ht]
  change ((askTracker respond i question now on).ran s).1 = _
  rw [askTracker, ran_bind, ran_tracker ht, onward]
  cases question with
  | state | isState =>
    obtain ⟨s', hran⟩ := ran_carryOut_asks respond (Query.asks_state t.config now on) hs t.core
    dsimp only
    rw [ran_bind, hran, Tracker.answer]
    cases (Planning.plan (Query.state t.config now on) t.core).outcome <;> rfl
  | timeToIdle =>
    obtain ⟨s', hran⟩ := ran_carryOut_asks respond (Query.asks_timeToIdle t.config now on) hs t.core
    dsimp only
    rw [ran_bind, hran, Tracker.answer]
    cases (Planning.plan (Query.timeToIdle t.config now on) t.core).outcome <;> rfl
  | timeSinceBusy =>
    obtain ⟨s', hran⟩ := ran_carryOut_asks respond (Query.asks_timeSinceBusy t.config now on) hs t.core
    dsimp only
    rw [ran_bind, hran, Tracker.answer]
    cases (Planning.plan (Query.timeSinceBusy t.config now on) t.core).outcome <;> rfl

end Act

/-- What can be asked about the radio is answered alike in two sessions: each question about a band, what the
tracker knows of the radio, and its busy entries. -/
structure Session.AnswersAlike (i : Nat) (s s' : Session) : Prop where
  ask : ∀ respond question now on,
    ((Act.performOnTracker respond i (.ask question now on)).ran s).1 =
      ((Act.performOnTracker respond i (.ask question now on)).ran s').1
  view : (s.trackers[i]?.map fun t => ((viewOf t).record, (viewOf t).busy)) =
    s'.trackers[i]?.map fun t => ((viewOf t).record, (viewOf t).busy)

/-- Questions look at the record and at the busy table. -/
theorem Tracker.answer_congr {t u : Tracker} (hconfig : t.config = u.config)
    (hrecord : t.core.record = u.core.record) (htable : t.core.table = u.core.table) (now : Number)
    (on : Sensing) (question : BandQuestion) : t.answer now on question = u.answer now on question := by
  have hstate : (Planning.plan (Query.state u.config now on) t.core).outcome =
      (Planning.plan (Query.state u.config now on) u.core).outcome := by
    refine Planning.Agrees.outcome ((Planning.Agrees.checkTime _ now).bind fun _ =>
      (Planning.Agrees.check _).bind fun _ => Planning.Agrees.core_bind ?_ (.check _))
    rw [hrecord, htable]
  have hidle : (Planning.plan (Query.timeToIdle u.config now on) t.core).outcome =
      (Planning.plan (Query.timeToIdle u.config now on) u.core).outcome := by
    refine Planning.Agrees.outcome ((Planning.Agrees.checkTime _ now).bind fun _ =>
      (Planning.Agrees.check _).bind fun _ => Planning.Agrees.core_bind ?_ ?_)
    · rw [hrecord, htable]
    · split
      · exact .pure _
      · exact (Planning.Agrees.log _).bind fun _ => .check (.error _)
  have hbusy : (Planning.plan (Query.timeSinceBusy u.config now on) t.core).outcome =
      (Planning.plan (Query.timeSinceBusy u.config now on) u.core).outcome := by
    refine Planning.Agrees.outcome ((Planning.Agrees.checkTime _ now).bind fun _ =>
      (Planning.Agrees.check _).bind fun _ => Planning.Agrees.core_bind ?_ (.check _))
    rw [hrecord, htable]
  cases question with
  | state | isState => rw [answer, answer, hconfig, hstate]
  | timeToIdle => rw [answer, answer, hconfig, hidle]
  | timeSinceBusy => rw [answer, answer, hconfig, hbusy]

/-- Trackers with one configuration are answered for alike just if their records and busy entries are the
same. -/
theorem Session.answersAlike_iff {i : Nat} {s s' : Session} {t t' : Tracker} (hs : s.HasLog i)
    (hs' : s'.HasLog i) (ht : s.trackers[i]? = some t) (ht' : s'.trackers[i]? = some t')
    (hconfig : t.config = t'.config) (hres : t.core.table.resolution = t'.core.table.resolution) :
    AnswersAlike i s s' ↔ t.core.record = t'.core.record ∧ t.core.table = t'.core.table := by
  constructor
  · intro h
    have hview := h.view
    rw [ht, ht'] at hview
    obtain ⟨hrecord, hbusy⟩ := Prod.mk.inj (Option.some.inj hview)
    exact ⟨hrecord, BusyTable.mk.injEq .. ▸ ⟨hres, hbusy⟩⟩
  · rintro ⟨hrecord, htable⟩
    refine ⟨fun respond question now on => ?_, ?_⟩
    · rw [Act.ran_ask respond hs ht, Act.ran_ask respond hs' ht']
      exact Tracker.answer_congr hconfig hrecord htable now on question
    · rw [ht, ht', Option.map_some, Option.map_some, viewOf, viewOf, hrecord, htable]

/-! ### The sessions in which observers are called -/

namespace Act

/-- An observer is called as `c` in the session `s'` while notices of a tracker are given. Earlier observers
have had their turn by then. -/
inductive Calls (respond : Respond) (i : Nat) (before : Tracker) (c : ObserverCall) (s' : Session) :
    List Notice → Session → Prop
  | listener {s : Session} {t : Tracker} {call : ListenerCall} {first rest : List ObserverId}
      {id : ObserverId} {ns : List Notice} (ht : s.trackers[i]? = some t)
      (hid : t.listeners.members = first ++ id :: rest) (hc : c = .listener id call)
      (hfirst : (callListeners respond call first).ran s = (.ok (), s')) :
      Calls respond i before c s' (.listeners call :: ns) s
  /-- a subscription for one event has been ended -/
  | subscriber {s s₁ : Session} {t u : Tracker} {event : TraceEvent} {first rest : List Subscription}
      {e : Subscription} {id : ObserverId} {subscriptions : Subscriptions} {ns : List Notice}
      (ht : s.trackers[i]? = some t) (he : t.subscriptions.ofKind event.kind = first ++ e :: rest)
      (hfirst : (callSubscribers respond i event first).ran s = (.ok (), s₁))
      (hu : s₁.trackers[i]? = some u) (hclaim : u.subscriptions.claim e = some subscriptions)
      (hid : e.subscriber = .observer id) (hc : c = .trace id event)
      (hs' : s' = s₁.modifyTracker i fun t => { t with subscriptions }) :
      Calls respond i before c s' (.trace event :: ns) s
  | callback {s : Session} {d : Delivery} {id : ObserverId} {ns : List Notice}
      (hid : before.callbackFor d = some id) (hc : c = .delivery id d) (hs' : s' = s) :
      Calls respond i before c s' (.deliver d :: ns) s
  | later {s s₁ : Session} {n : Notice} {ns : List Notice}
      (hn : (giveNotice respond i before n).ran s = (.ok (), s₁))
      (h : Calls respond i before c s' ns s₁) : Calls respond i before c s' (n :: ns) s

section Congruence

variable {i : Nat} {respond known : Respond} {before : Tracker}

theorem ran_bind_congr {α β : Type} {x y : Act α} {f g : α → Act β} {s : Session} (h : x.ran s = y.ran s)
    (hf : ∀ a s₁, y.ran s = (.ok a, s₁) → (f a).ran s₁ = (g a).ran s₁) :
    (x >>= f).ran s = (y >>= g).ran s := by
  rw [ran_bind, ran_bind, h]
  rcases hy : y.ran s with ⟨e | a, s₁⟩
  · rfl
  · exact hf a s₁ hy

/-- What is done with the tracker that is looked at decides. -/
theorem ran_tracker_bind_congr {α : Type} {f g : Tracker → Act α} {s : Session}
    (h : ∀ t, s.trackers[i]? = some t → (f t).ran s = (g t).ran s) :
    (tracker i >>= f).ran s = (tracker i >>= g).ran s := by
  rw [ran_bind, ran_bind]
  cases ht : s.trackers[i]? with
  | none => rw [ran_tracker_none ht, onward, onward]
  | some t =>
    rw [ran_tracker ht]
    exact h t ht

theorem ran_callListeners_congr {call : ListenerCall} {members : List ObserverId} {s : Session}
    (h : ∀ first id rest s', members = first ++ id :: rest →
      (callListeners respond call first).ran s = (.ok (), s') →
        (known (.listener id call)).ran s' = (respond (.listener id call)).ran s') :
    (callListeners known call members).ran s = (callListeners respond call members).ran s := by
  induction members generalizing s with
  | nil => rfl
  | cons id rest ih =>
    refine ran_bind_congr (h [] id rest s rfl rfl) fun _ s₁ hid =>
      ih fun first id' rest' s' hrest hfirst => ?_
    refine h (id :: first) id' rest' s' (by rw [hrest]; rfl) ?_
    rw [callListeners, ran_bind, hid]
    exact hfirst

/-- A subscriber has its turn, and then the others have theirs. -/
theorem ran_callSubscribers_cons {event : TraceEvent} {e : Subscription} {s : Session} {u : Tracker}
    (hu : s.trackers[i]? = some u) (rest : List Subscription) :
    (callSubscribers respond i event (e :: rest)).ran s =
      match u.subscriptions.claim e with
      | some subscriptions =>
        onward (fun _ => callSubscribers respond i event rest)
          ((callSubscriber respond event e.subscriber).ran
            (s.modifyTracker i fun t => { t with subscriptions }))
      | none => (callSubscribers respond i event rest).ran s := by
  rw [callSubscribers, ran_bind, ran_tracker hu, onward]
  cases u.subscriptions.claim e with
  | none => rfl
  | some subscriptions =>
    change ((callSubscriber respond event e.subscriber >>= fun _ => _).ran _) = _
    rw [ran_bind]

theorem ran_callSubscribers_congr {event : TraceEvent} {entries : List Subscription} {s : Session}
    (h : ∀ first e rest s₁ u subscriptions id, entries = first ++ e :: rest →
      (callSubscribers respond i event first).ran s = (.ok (), s₁) → s₁.trackers[i]? = some u →
        u.subscriptions.claim e = some subscriptions → e.subscriber = .observer id →
          (known (.trace id event)).ran (s₁.modifyTracker i fun t => { t with subscriptions }) =
            (respond (.trace id event)).ran (s₁.modifyTracker i fun t => { t with subscriptions })) :
    (callSubscribers known i event entries).ran s = (callSubscribers respond i event entries).ran s := by
  induction entries generalizing s with
  | nil => rfl
  | cons e rest ih =>
    refine ran_tracker_bind_congr fun u hu => ?_
    -- after a turn that has come to its end it goes on in the session that it left
    have hrest {s₁ : Session} (hturn : ∀ first, (callSubscribers respond i event (e :: first)).ran s =
        (callSubscribers respond i event first).ran s₁) :
        (callSubscribers known i event rest).ran s₁ = (callSubscribers respond i event rest).ran s₁ :=
      ih fun first e' rest' s' u' subscriptions id hsplit hfirst =>
        h (e :: first) e' rest' s' u' subscriptions id (by rw [hsplit]; rfl) ((hturn first).trans hfirst)
    have hcons := @ran_callSubscribers_cons i respond event e s u hu
    cases hclaim : u.subscriptions.claim e with
    | none =>
      rw [hclaim] at hcons
      exact hrest hcons
    | some subscriptions =>
      rw [hclaim] at hcons
      refine ran_bind_congr rfl fun _ s₁ hmodify => ?_
      obtain ⟨-, rfl⟩ := Prod.mk.inj hmodify
      refine ran_bind_congr ?_ fun _ s₁ hcall => hrest fun first => ?_
      · cases hid : e.subscriber with
        | observer id => exact h [] e rest s u subscriptions id rfl rfl hu hclaim hid
        | collector => rfl
      · exact (hcons first).trans (congrArg (onward fun _ => callSubscribers respond i event first) hcall)

/-- Observers that respond alike wherever they are called make no difference. -/
theorem ran_giveNotices_congr {ns : List Notice} {s : Session}
    (h : ∀ c s', Calls respond i before c s' ns s → (known c).ran s' = (respond c).ran s') :
    (giveNotices known i before ns).ran s = (giveNotices respond i before ns).ran s := by
  induction ns generalizing s with
  | nil => rfl
  | cons n rest ih =>
    refine ran_bind_congr ?_ fun _ s₁ hn => ih fun c s' hc => h c s' (.later hn hc)
    cases n with
    | listeners call =>
      exact ran_tracker_bind_congr fun t ht =>
        ran_callListeners_congr fun first id rest' s' hmembers hfirst =>
        h _ s' (.listener ht hmembers rfl hfirst)
    | trace event =>
      refine ran_bind_congr (ran_tracker_bind_congr fun t ht =>
        ran_bind_congr (ran_callSubscribers_congr ?_) fun _ _ _ => rfl) fun _ _ _ => rfl
      exact fun first e rest' s' u subscriptions id hentries hfirst hu hclaim hid =>
        h _ _ (.subscriber ht hentries hfirst hu hclaim hid rfl rfl)
    | deliver d =>
      rw [giveNotice, giveNotice]
      cases hid : before.callbackFor d with
      | none => rfl
      | some id => exact h _ s (.callback hid rfl rfl)

end Congruence

section Calling

variable {i depth : Nat} {respond : Respond} {before : Tracker} {c : ObserverCall} {s s' : Session}
  {ns : List Notice}

/-- What holds across all that observers do holds until one of them is called. -/
theorem Calls.along {R : Session → Session → Prop} [Mindful i R] (hr : ∀ c, (respond c).Along R)
    (h : Calls respond i before c s' ns s) : R s s' := by
  induction h with
  | @listener s t call first rest id ns ht hid hc hfirst =>
    have hcalls := along_callListeners hr call first s
    rwa [AlongAt, hfirst] at hcalls
  | @subscriber s s₁ t u event first rest e id subscriptions ns ht he hfirst hu hclaim hid hc hs' =>
    have hcalls := along_callSubscribers hr i event first s
    rw [AlongAt, hfirst] at hcalls
    subst hs'
    refine Mindful.chains.trans hcalls (Mindful.of_modifyTracker (.modifyTracker ?_ i s₁))
    exact fun _ => ⟨rfl, rfl, rfl, rfl⟩
  | callback hid hc hs' =>
    subst hs'
    exact Mindful.chains.refl _
  | @later s s₁ n ns hn h ih =>
    have hnotice := along_giveNotice hr i before n s
    rw [AlongAt, hn] at hnotice
    exact Mindful.chains.trans hnotice ih

/-- A call that tells of something else than a state change comes from a notice that does. -/
theorem Calls.exists_isTelling (h : Calls respond i before c s' ns s) (hc : c.isTelling) :
    ∃ n ∈ ns, n.isTelling := by
  induction h with
  | listener => exact ⟨_, List.mem_cons_self, rfl⟩
  | @subscriber s s₁ t u event first rest e id subscriptions ns ht he hfirst hu hclaim hid hcall hs' =>
    subst hcall
    cases event with
    | stateChange => cases hc
    | tx | rxOk | rxError => exact ⟨_, List.mem_cons_self, rfl⟩
  | callback => exact ⟨_, List.mem_cons_self, rfl⟩
  | later hn h ih =>
    obtain ⟨n, hmem, hn⟩ := ih
    exact ⟨n, List.mem_cons_of_mem _ hmem, hn⟩

/-- Whatever observers do, a tracker keeps its log. -/
theorem keepsLog_respond (i depth : Nat) (c : ObserverCall) : (Act.respond depth c).Along (KeepsLog i) :=
  along_respond (fun _ hr => takes_keepsLog hr) depth c

/-- In the session `s'`, an observer may ask something that is called as `c` by an announcement after some
steps of a plan. It has requested other things first. -/
def MayAsk (depth i : Nat) (done : List Step) (ns : List Notice) (c : ObserverCall) (s s' : Session) : Prop :=
  ∃ s₁ t s₂ script, (carryOutSteps (Act.respond (depth + 1)) i done).ran s = (.ok (), s₁) ∧
    s₁.trackers[i]? = some t ∧
    Calls (Act.respond (depth + 1)) i t c s₂ ns
      (s₁.modifyTracker i fun t => { t with announcing := t.announcing + 1 }) ∧
    ((runScript (perform (Act.respond depth)) script).ran (s₂.see (.called c))).2 = s'

/-- While an observer asks, the tracker remembers what the steps have made of it by then. -/
theorem MayAsk.tracker {done : List Step} {t : Tracker} (h : MayAsk depth i done ns c s s')
    (ht : s.trackers[i]? = some t) :
    ∃ u, s'.trackers[i]? = some u ∧ u.config = t.config ∧ u.core = coreAfter done t.core := by
  obtain ⟨s₁, t₁, s₂, script, hdone, ht₁, hcalls, rfl⟩ := h
  obtain ⟨t₁', ht₁', hk₁⟩ := keeps_carryOutSteps (sparing_respond _) ht hdone
  obtain rfl := Option.some.inj (ht₁'.symm.trans ht₁)
  have hmarked := getElem?_modifyTracker ht₁ fun t => { t with announcing := t.announcing + 1 }
  obtain ⟨u, hu, hk₂⟩ := hcalls.along (R := Spares i) (sparing_respond _) _ hmarked (Nat.succ_ne_zero _)
  have hscript : (runScript (perform (Act.respond depth)) script).Along (Spares i) :=
    along_runScript (along_perform (sparing_respond depth) (takes_spares i _)) script
  obtain ⟨v, hv, hk₃⟩ := hscript (s₂.see (.called c)) u hu (by rw [hk₂.announcing]; exact Nat.succ_ne_zero _)
  exact ⟨v, hv, hk₃.config.trans (hk₂.config.trans hk₁.config), hk₃.core.trans (hk₂.core.trans hk₁.core)⟩

/-- The tracker has its log by then. -/
theorem MayAsk.hasLog {done : List Step} (h : MayAsk depth i done ns c s s') (hs : s.HasLog i) :
    s'.HasLog i := by
  obtain ⟨s₁, t₁, s₂, script, hdone, ht₁, hcalls, rfl⟩ := h
  have hr := keepsLog_respond i
  have hsteps := along_carryOutSteps_of (hr (depth + 1)) (along_emit (hr _) i)
    (fun f hf => along_modifyTracker_log fun t => (hf t).2) done s hs
  rw [hdone] at hsteps
  have hmarked : KeepsLog i s₁ (s₁.modifyTracker i fun t => { t with announcing := t.announcing + 1 }) :=
    along_modifyTracker_log (f := fun t => { t with announcing := t.announcing + 1 }) (fun _ => rfl) s₁
  have hscript : (runScript (perform (Act.respond depth)) script).Along (KeepsLog i) :=
    along_runScript (along_perform (hr depth) (takes_keepsLog (hr depth))) script
  exact hscript _ (hcalls.along (hr _) (hmarked hsteps))

end Calling

end Act

/-! ### What a transition has left to do while observers are called -/

namespace Transition

variable {config : Config} {core : Core} {x : Transition} {ns : List Notice} {before after : List Step}

/-- An announcement that tells of something else than a state change tells of no state change. -/
theorem stateChanges_of_announce (h : x.deeds config core = before ++ .announce ns :: after)
    (hn : ∃ n ∈ ns, n.isTelling) : ns.filterMap Notice.stateChange? = [] := by
  have hmem : Step.announce ns ∈ x.deeds config core := h ▸ List.mem_append_right _ List.mem_cons_self
  rcases List.mem_append.1 hmem with hreport | henact
  · obtain ⟨n, hn, htelling⟩ := hn
    rcases mem_reportDeeds hreport with ⟨t, ht⟩ | ⟨segment, hsegment⟩
    · cases ht
    · obtain rfl := Step.announce.inj hsegment
      obtain rfl := List.mem_singleton.1 hn
      cases htelling
  · obtain ⟨first, last, hsplit⟩ := List.append_of_mem henact
    have hnone := stateChangesOf_enactDeeds config core x
    rw [hsplit, List.append_cons, stateChangesOf_append, stateChangesOf_append, stateChangesOf_announce,
      List.append_eq_nil_iff, List.append_eq_nil_iff] at hnone
    exact hnone.1.2

/-- What is left to do after such an announcement does not count sub-frames. -/
theorem mpdus_postponed (x : Transition) (config : Config) (core : Core) (ns : List Notice) (before : Core) :
    (coreAfter (x.postponed config core ns) before).mpdus = before.mpdus := by
  have hsense : ∀ now duration on isPrimary,
      (coreAfter (core.senseDeeds config now duration on isPrimary) before).mpdus = before.mpdus := by
    intro now duration on isPrimary
    have hmem := fun step => @Core.mem_senseDeeds core config now duration on isPrimary step
    generalize core.senseDeeds config now duration on isPrimary = steps at hmem
    induction steps generalizing before with
    | nil => rfl
    | cons step rest ih =>
      have hrest := fun before => ih before fun step hstep => hmem step (List.mem_cons_of_mem _ hstep)
      rcases hmem step List.mem_cons_self with ⟨entry, rfl⟩ | ⟨remaining, rfl⟩
      · exact hrest _
      · exact hrest _
  cases x with
  | wakeUp | powerOn =>
    rw [postponed]
    split
    · exact hsense _ _ _ _
    · rfl
  | _ => rfl

/-- While a transition makes an announcement that is no report, the record and the busy table are as they will
be in the end just if it postpones nothing. -/
theorem known_iff_not_postpones (hp : x.Permitted config core) (hns : ns.filterMap Notice.stateChange? = [])
    (h : x.deeds config core = before ++ .announce ns :: after) :
    ((coreAfter before core).record = (coreAfter (x.deeds config core) core).record ∧
      (coreAfter before core).table = (coreAfter (x.deeds config core) core).table) ↔
        ¬x.Postpones config core ns := by
  have hmpdus : (coreAfter before core).mpdus = (coreAfter (x.deeds config core) core).mpdus := by
    obtain ⟨first, -, henact⟩ := enactDeeds_of_announce hns h
    rw [h, coreAfter_append, coreAfter_announce, postponed_of_announce henact, mpdus_postponed]
  rw [← alike_iff_not_postpones hp hns h]
  rw [h, coreAfter_append, coreAfter_announce] at hmpdus ⊢
  exact ⟨fun ⟨hrecord, htable⟩ => ⟨hrecord, htable, hmpdus⟩, fun halike => ⟨halike.record, halike.table⟩⟩

end Transition

namespace Act

/-- A request for a transition that succeeds is accepted, and its steps are carried out to their end. -/
theorem ok_of_transition {respond : Respond} {i : Nat} {s s' : Session} {t : Tracker} {x : Transition}
    {v : Value} (ht : s.trackers[i]? = some t)
    (h : (performOnTracker respond i (.transition x)).ran s = (.ok v, s')) :
    (t.plan x).outcome = .ok () ∧ (carryOutSteps respond i (t.plan x).steps).ran s = (.ok (), s') := by
  rw [performOnTracker, ran_bind, ran_tracker ht, onward] at h
  obtain ⟨⟨⟩, s₁, hcarry, hend⟩ := ok_of_bind h
  obtain ⟨-, rfl⟩ := Prod.mk.inj hend
  obtain ⟨⟨⟩, s₂, hsteps, houtcome⟩ := ok_of_bind hcarry
  rw [ran_ofExcept] at houtcome
  obtain ⟨houtcome, rfl⟩ := Prod.mk.inj houtcome
  refine ⟨?_, hsteps⟩
  cases hout : (t.plan x).outcome with
  | ok => rfl
  | error r =>
    rw [hout] at houtcome
    cases houtcome

/-- A tracker takes a transition, and no observer fails. An observer that is told of something else than a
state change has all its questions answered as they are when the transition is over, just if the transition
postpones nothing. -/
theorem observer_sees_outcome_iff {depth i : Nat} {s s₁ s' : Session} {t : Tracker} {x : Transition}
    {done rest : List Step} {ns : List Notice} {c : ObserverCall} {v : Value} (hs : s.HasLog i)
    (ht : s.trackers[i]? = some t)
    (hcall : (performOnTracker (respond (depth + 1)) i (.transition x)).ran s = (.ok v, s'))
    (hsteps : (t.plan x).steps = done ++ .announce ns :: rest) (hask : MayAsk depth i done ns c s s₁)
    (hc : c.isTelling) : Session.AnswersAlike i s₁ s' ↔ ¬x.Postpones t.config t.core ns := by
  obtain ⟨hok, hran⟩ := ok_of_transition ht hcall
  obtain ⟨u, hu, huconfig, hucore⟩ := hask.tracker ht
  obtain ⟨v, hv, hk⟩ := keeps_carryOutSteps (sparing_respond _) ht hran
  obtain ⟨hp, hdeeds⟩ := Tracker.deeds_plan_of_accepted hok
  have hsplit : x.deeds t.config t.core = deedsOf done ++ .announce ns :: deedsOf rest := by
    rw [← hdeeds, hsteps, deedsOf_append]
    rfl
  have hns : ns.filterMap Notice.stateChange? = [] := by
    obtain ⟨s₂, t₂, s₃, script, -, -, hcalls, -⟩ := hask
    exact Transition.stateChanges_of_announce hsplit (hcalls.exists_isTelling hc)
  have hvcore : v.core = coreAfter (x.deeds t.config t.core) t.core := by
    rw [hk.core, ← hdeeds, coreAfter_deedsOf]
  have hs' : s'.HasLog i := by
    have hr := keepsLog_respond i (depth + 1)
    have hlog := along_performOnTracker hr (takes_keepsLog hr) i (.transition x) s hs
    rwa [hcall] at hlog
  rw [Session.answersAlike_iff (hask.hasLog hs) hs' hu hv (huconfig.trans hk.config.symm)
    (by rw [hucore, hvcore, resolution_coreAfter, resolution_coreAfter]), hucore, hvcore,
    ← coreAfter_deedsOf done]
  exact Transition.known_iff_not_postpones hp hns hsplit

/-- Energy lasts until a hundred when the radio falls asleep at ten, and it wakes up to energy at thirty that
lasts for five more units. A listener that hears of it finds the radio busy, as it is afterwards. -/
theorem listener_sees_busy_radio :
    ∃ s s₁ s' v, let on : Sensing := ⟨⟨0, 63⟩, none⟩
      (performOnTracker (Act.respond 1) 0 (.transition (.wakeUp 30 5 on true))).ran s = (.ok v, s') ∧
        (∃ done ns id call, MayAsk 0 0 done ns (.listener id call) s s₁) ∧ Session.AnswersAlike 0 s₁ s' ∧
        (s'.trackers[0]?.bind fun t => (t.core.record.stateOn t.core.table on.band (-82) 30).toOption) =
          some .ccaBusy := by
  let on : Sensing := ⟨⟨0, 63⟩, none⟩
  let x : Transition := .wakeUp 30 5 on true
  let t : Tracker :=
    { Tracker.first {} with
      core :=
        { record := { lastChange := 10, sleeping := true, dormantSince := 10 }
          table := ⟨0.01, [⟨⟨0, 63⟩, -8200, 0, 100⟩]⟩
          cursor := 10 }
      listeners := .register {} "mac" }
  let s : Session := { trackers := #[t] }
  let ns : List Notice := [.listeners ⟨.wakeup, []⟩]
  let done := (t.plan x).steps.take 3
  let s₀ := ((carryOutSteps (Act.respond 1) 0 done).ran s).2
  let marked := s₀.modifyTracker 0 fun t => { t with announcing := t.announcing + 1 }
  have hlast : ((t.plan x).steps.drop 3).length = 1 ∧ noticesOf ((t.plan x).steps.drop 3) = ns := by
    decide +kernel
  have hsteps : (t.plan x).steps = done ++ .announce ns :: [] := by
    obtain ⟨hone, htold⟩ := hlast
    obtain ⟨step, hstep⟩ := List.length_eq_one_iff.1 hone
    rw [hstep] at htold
    cases step with
    | announce ns' =>
      rw [noticesOf_announce] at htold
      rw [← htold, ← hstep, List.take_append_drop]
    | change | log => exact absurd htold.symm (List.cons_ne_nil _ _)
  have hdone : ((carryOutSteps (Act.respond 1) 0 done).ran s).1.isOk = true := by decide +kernel
  have hmembers : (s₀.trackers[0]?.any fun t => t.listeners.members = ["mac"]) = true := by decide +kernel
  have hcall : ((performOnTracker (Act.respond 1) 0 (.transition x)).ran s).1.isOk = true := by decide +kernel
  have hbusy : (((performOnTracker (Act.respond 1) 0 (.transition x)).ran s).2.trackers[0]?.bind fun t =>
      (t.core.record.stateOn t.core.table on.band (-82) 30).toOption) = some .ccaBusy := by decide +kernel
  have hearlier : ((t.core.table.detection on.band (on.thresholdIn t.config) 30 5).toOption.all fun found =>
      !found.isLatest) = true := by decide +kernel
  have hsettled : ¬x.Postpones t.config t.core ns := by
    rintro ⟨-, -, found, hfound, hlatest⟩
    rw [hfound] at hearlier
    simp [Except.toOption, hlatest] at hearlier
  obtain ⟨t₀, ht₀, hmembers⟩ := (Option.any_eq_true _ _).1 hmembers
  have hmembers : t₀.listeners.members = [] ++ "mac" :: [] := of_decide_eq_true hmembers
  have hask : MayAsk 0 0 done ns (.listener "mac" ⟨.wakeup, []⟩) s (marked.see (.called _)) :=
    ⟨s₀, t₀, marked, [], ok_of_isOk hdone, ht₀, .listener (getElem?_modifyTracker ht₀ _)
      hmembers rfl rfl, rfl⟩
  rcases hran : (performOnTracker (Act.respond 1) 0 (.transition x)).ran s with ⟨e | v, s'⟩
  · rw [hran] at hcall
    cases hcall
  · rw [hran] at hbusy
    have hlog : s.HasLog 0 := ⟨t, rfl, Nat.zero_lt_one⟩
    exact ⟨s, _, s', v, hran, ⟨done, ns, _, _, hask⟩,
      (observer_sees_outcome_iff hlog rfl hran hsteps hask rfl).2 hsettled, hbusy⟩

end Act

/-- A listener asks for the state of the radio when it hears that the radio has woken up, and another for what
is known of it when it hears of energy. Each of them is answered with what has been done by then, and the
energy that the radio wakes up to and the time of the detection are not yet part of it. -/
theorem Session.listener_sees_unfinished_transition :
    let on : Sensing := ⟨⟨0, 63⟩, none⟩
    let ask : Request := .tracker "radio" (.ask .state 30 on)
    let look : Request := .tracker "radio" .view
    let result := fun (s : Session) r => (s.step r).1.reply.result.toOption
    let nested := fun (a : Session.Answer) => a.events.toList.filterMap fun
      | .nested _ reply => reply.result.toOption
      | _ => none
    let state : Value → Option Radio.State := fun
      | .state state => some state
      | _ => none
    let lastChange : Value → Option Number := fun
      | .tracker view => some view.record.lastChange
      | _ => none
    let heard := fun occasion (r : Request) => (firstUnder "radio").after
      [.tracker "radio" (.register "mac"), .script "mac" occasion [⟨r, true⟩]]
    let asleep := (heard "onWakeup" ask).after [.tracker "radio" (.transition (.fallAsleep 10 on))]
    let woken := asleep.step (.tracker "radio" (.transition (.wakeUp 30 5 on true)))
    let detected := (heard "onCcaBusyStart" look).step
      (.tracker "radio" (.transition (.detectEnergy 30 5 on true)))
    woken.1.reply.result.isOk ∧ (nested woken.1).map state = [some .idle] ∧
      (result woken.2 ask).map state = some (some .ccaBusy) ∧
      detected.1.reply.result.isOk ∧ (nested detected.1).map lastChange = [some 0] ∧
      (result detected.2 look).map lastChange = some (some 30) := by
  decide +kernel

end RadioOccupancy
