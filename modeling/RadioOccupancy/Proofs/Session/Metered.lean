import RadioOccupancy.Proofs.Deeds
import RadioOccupancy.Proofs.Session.History
import RadioOccupancy.Proofs.Session.Orderly
import RadioOccupancy.Proofs.Session.Unfailing

/-!
Runs of a session in which a collector is left in peace.

    tracker:     plan { announce { event, event }, announce { event } }
    collector:                     +1     +1                  +1

A collector that has one lasting entry for each kind of event adds each event that its tracker emits once,
when its turn comes among the subscribers (`Act.told_emit`). Others come and go, and request what they like;
as long as they disturb nothing, that changes neither the entry nor the totals. So the totals after a run are
those of the events of its calls (`Session.Metered.tallies`), and whatever is requested of a session without
disturbing the collector is such a run as long as no observer fails (`Session.metered_steps`).
-/

namespace RadioOccupancy

/-- The trace event that a notice tells of. -/
def Notice.event? : Notice → Option TraceEvent
  | .trace event => some event
  | .listeners _ | .deliver _ => none

/-- The trace events of steps. -/
def eventsOf (steps : List Step) : List TraceEvent :=
  (noticesOf steps).filterMap Notice.event?

theorem eventsOf_append (steps more : List Step) :
    eventsOf (steps ++ more) = eventsOf steps ++ eventsOf more := by
  rw [eventsOf, noticesOf_append, List.filterMap_append]
  rfl

/-- The trace events of a call. -/
def Call.events (c : Call) : List TraceEvent :=
  eventsOf c.plan.steps

namespace Session

theorem Tallies.subscribed {i k : Nat} {events : List TraceEvent} {s s' : Session}
    (h : s.Tallies i k events s') (hs : s.Subscribed i k) : s'.Subscribed i k := by
  rw [Subscribed, h.entries]
  exact hs

end Session

/-! ### What a tracker emits is added once -/

namespace Act

/-- While the tracker is announcing something, the collector adds events. -/
structure Told (i k : Nat) (events : List TraceEvent) (s s' : Session) : Prop where
  announcing : s'.announcing i = s.announcing i
  tallies : s.Tallies i k events s'

variable {i k : Nat} {respond : Respond} {events more : List TraceEvent} {s s₁ s' : Session}

theorem Told.trans (h : Told i k events s s₁) (h' : Told i k more s₁ s') : Told i k (events ++ more) s s' :=
  ⟨h'.announcing.trans h.announcing, h.tallies.trans h'.tallies⟩

/-- Nothing is added across an action in which the collector keeps its totals. -/
theorem told_nil {α : Type} {x : Act α} {r : Except Fault α} (hx : x.Along (Hushed i k))
    (hs : s.Attends i k) (hne : s.announcing i ≠ 0) (h : x.ran s = (r, s')) : Told i k [] s s' := by
  have hhushed := hx s
  rw [AlongAt, h] at hhushed
  obtain ⟨hann, htallies⟩ := hhushed hs hne
  exact ⟨hann, htallies⟩

section Telling

variable (hr : ∀ c, (respond c).Along (Hushed i k))
include hr

theorem told_callSubscriber {event : TraceEvent} {who : Subscriber} (hs : s.Attends i k)
    (hne : s.announcing i ≠ 0) (h : (callSubscriber respond event who).ran s = (.ok (), s')) :
    Told i k (if who = .collector k then [event] else []) s s' := by
  cases who with
  | observer id =>
    rw [if_neg (by rintro ⟨⟩)]
    exact told_nil (hr _) hs hne h
  | collector m =>
    obtain ⟨-, rfl⟩ := Prod.mk.inj h
    by_cases hm : m = k
    · subst hm
      rw [if_pos rfl]
      exact ⟨rfl, .add_event hs event⟩
    · rw [if_neg (by simpa using hm)]
      exact ⟨rfl, .modifyCollector hs hm _⟩

/-- Of the entries on a list, those of the collector add the event, each of them once. -/
theorem told_callSubscribers {event : TraceEvent} {entries : List Subscription}
    (hown : ∀ e ∈ entries, e.subscriber = .collector k → e.once = false)
    (hother : ∀ e ∈ entries, e.subscriber ≠ .collector k → ∀ f ∈ s.entriesAt i k, f.serial ≠ e.serial)
    (hs : s.Attends i k) (hne : s.announcing i ≠ 0)
    (h : (callSubscribers respond i event entries).ran s = (.ok (), s')) :
    Told i k ((entries.filter fun e => e.subscriber = .collector k).map fun _ => event) s s' := by
  induction entries generalizing s with
  | nil =>
    obtain ⟨-, rfl⟩ := Prod.mk.inj h
    exact ⟨rfl, .refl hs⟩
  | cons e rest ih =>
    obtain ⟨hown', hown⟩ := List.forall_mem_cons.1 hown
    obtain ⟨hother', hother⟩ := List.forall_mem_cons.1 hother
    obtain ⟨t, ht⟩ : ∃ t, s.trackers[i]? = some t := by
      cases ht : s.trackers[i]? with
      | some t => exact ⟨t, rfl⟩
      | none =>
        rw [Session.announcing, ht] at hne
        exact absurd rfl hne
    rw [callSubscribers, ran_bind, ran_tracker ht] at h
    dsimp only [onward] at h
    cases hclaim : t.subscriptions.claim e with
    | none =>
      -- only an entry for one event that was called before is passed over
      have hwho : e.subscriber ≠ .collector k := by
        intro hwho
        rw [Subscriptions.claim_of_lasting (hown' hwho)] at hclaim
        cases hclaim
      rw [hclaim] at h
      rw [List.filter_cons_of_neg (by simpa using hwho)]
      exact ih hown hother hs hne h
    | some subscriptions =>
      rw [hclaim] at h
      obtain ⟨⟨⟩, s₁, hmodify, h⟩ := ok_of_bind h
      obtain ⟨⟨⟩, s₂, hcall, hrest⟩ := ok_of_bind h
      obtain ⟨-, rfl⟩ := Prod.mk.inj hmodify
      have hkeeps : KeepsAt i s (s.modifyTracker i fun t => { t with subscriptions }) := by
        refine .modifyTracker ?_ i s
        exact fun _ => ⟨rfl, rfl, rfl, rfl⟩
      have hnote : Told i k [] s (s.modifyTracker i fun t => { t with subscriptions }) := by
        refine ⟨hkeeps.announcing_modifyTracker, .modifyTracker hs fun u hu hsound => ?_⟩
        obtain rfl := Option.some.inj (ht.symm.trans hu)
        refine ⟨hsound.claim hclaim, Subscriptions.entriesOf_claim hclaim fun honce => ?_⟩
        rw [← Session.entriesAt_eq ht]
        refine hother' fun hwho => ?_
        rw [hown' hwho] at honce
        cases honce
      have hcall := told_callSubscriber hr hnote.tallies.attends (hnote.announcing.symm ▸ hne) hcall
      have hfirst := hnote.trans hcall
      have hlast := ih hown (hfirst.tallies.entries.symm ▸ hother) hfirst.tallies.attends
        (hfirst.announcing.symm ▸ hne) hrest
      have := hfirst.trans hlast
      by_cases hwho : e.subscriber = .collector k
      · rw [if_pos hwho] at this
        rw [List.filter_cons_of_pos (by simpa using hwho)]
        exact this
      · rw [if_neg hwho] at this
        rw [List.filter_cons_of_neg (by simpa using hwho)]
        exact this

/-- An event that the tracker emits is added once. -/
theorem told_emit {event : TraceEvent} {heard : Bool} (hs : s.Attends i k) (hsub : s.Subscribed i k)
    (hne : s.announcing i ≠ 0) (h : (emit respond i event).ran s = (.ok heard, s')) :
    Told i k [event] s s' := by
  obtain ⟨t, s₁, hlook, hrest⟩ := ok_of_bind h
  obtain ⟨ht, hsame⟩ := getElem?_of_ran_tracker (congrArg Prod.fst hlook)
  rw [hlook] at hsame
  obtain rfl : s₁ = s := hsame
  obtain ⟨⟨⟩, s₂, hcalls, hend⟩ := ok_of_bind hrest
  obtain ⟨-, rfl⟩ := Prod.mk.inj hend
  obtain ⟨e, hown, hlasts⟩ := hsub event.kind
  rw [Session.entriesAt_eq ht, ← Subscriptions.filter_ofKind] at hown
  have hsound := hs.sound i t ht
  have hcalls := told_callSubscribers hr (fun f hf hwho => ?_) (fun f hf hwho => ?_) hs hne hcalls
  · rw [hown] at hcalls
    exact hcalls
  · have : f ∈ [e] := hown ▸ List.mem_filter.2 ⟨hf, decide_eq_true hwho⟩
    rw [List.mem_singleton.1 this]
    exact hlasts
  · rw [Session.entriesAt_eq ht]
    exact hsound.serial_ne (List.mem_of_mem_filter hf) hwho

theorem told_giveNotice {before : Tracker} {n : Notice} (hs : s.Attends i k) (hsub : s.Subscribed i k)
    (hne : s.announcing i ≠ 0) (h : (giveNotice respond i before n).ran s = (.ok (), s')) :
    Told i k n.event?.toList s s' := by
  cases n with
  | listeners call =>
    refine told_nil ?_ hs hne h
    exact (along_tracker i).then fun t => along_callListeners hr call _
  | trace event =>
    obtain ⟨heard, s₁, hemit, hend⟩ := ok_of_bind h
    obtain ⟨-, rfl⟩ := Prod.mk.inj hend
    exact told_emit hr hs hsub hne hemit
  | deliver delivery =>
    refine told_nil ?_ hs hne h
    rw [giveNotice]
    split
    · exact hr _
    · exact along_pure _

theorem told_giveNotices {before : Tracker} {ns : List Notice} (hs : s.Attends i k)
    (hsub : s.Subscribed i k) (hne : s.announcing i ≠ 0)
    (h : (giveNotices respond i before ns).ran s = (.ok (), s')) :
    Told i k (ns.filterMap Notice.event?) s s' := by
  induction ns generalizing s with
  | nil =>
    obtain ⟨-, rfl⟩ := Prod.mk.inj h
    exact ⟨rfl, .refl hs⟩
  | cons n rest ih =>
    obtain ⟨⟨⟩, s₁, hfirst, hrest⟩ := ok_of_bind h
    have hfirst := told_giveNotice hr hs hsub hne hfirst
    have hlast := ih hfirst.tallies.attends (hfirst.tallies.subscribed hsub)
      (hfirst.announcing.symm ▸ hne) hrest
    have := hfirst.trans hlast
    rw [List.filterMap_cons]
    cases hn : n.event? with
    | none =>
      rw [hn] at this
      exact this
    | some event =>
      rw [hn] at this
      exact this

/-- A step of a plan adds its events. -/
theorem tallies_carryOutStep {step : Step} (hs : s.Attends i k) (hsub : s.Subscribed i k)
    (h : (carryOutStep respond i step).ran s = (.ok (), s')) : s.Tallies i k (eventsOf [step]) s' := by
  have hnote (f : Tracker → Tracker) (hf : ∀ t, (f t).subscriptions = t.subscriptions) {s : Session}
      (hs : s.Attends i k) : s.Tallies i k [] (s.modifyTracker i f) :=
    .modifyTracker hs fun t _ ht => by
      rw [hf]
      exact ⟨ht, rfl⟩
  cases step with
  | change c =>
    obtain ⟨-, rfl⟩ := Prod.mk.inj h
    exact hnote (fun t => { t with core := c.apply t.core }) (fun _ => rfl) hs
  | announce ns =>
    obtain ⟨t, s₁, hlook, -⟩ := ok_of_bind h
    obtain ⟨ht, -⟩ := getElem?_of_ran_tracker (congrArg Prod.fst hlook)
    rw [carryOutStep, ran_announce ns ht] at h
    obtain ⟨hok, rfl⟩ := Prod.mk.inj h
    have hmarked := hnote (fun t => { t with announcing := t.announcing + 1 }) (fun _ => rfl) hs
    have hne : (s.modifyTracker i fun t => { t with announcing := t.announcing + 1 }).announcing i ≠ 0 := by
      rw [Session.announcing, getElem?_modifyTracker ht]
      exact Nat.succ_ne_zero _
    have htold := (told_giveNotices hr hmarked.attends (hmarked.subscribed hsub) hne
      (Prod.ext hok rfl)).tallies
    have hend := hnote (fun t => { t with announcing := t.announcing - 1 }) (fun _ => rfl) htold.attends
    rw [eventsOf, noticesOf_announce, ← List.append_nil (List.filterMap _ _)]
    exact (hmarked.trans htold).trans hend
  | log m =>
    have hlog : (carryOutStep respond i (.log m)).Along
        fun s s' => s.Attends i k → s.Tallies i k [] s' :=
      (along_tracker i).then fun t => along_write _ m
    have hkept := hlog s hs
    rw [h] at hkept
    exact hkept

theorem tallies_carryOutSteps {steps : List Step} (hs : s.Attends i k) (hsub : s.Subscribed i k)
    (h : (carryOutSteps respond i steps).ran s = (.ok (), s')) : s.Tallies i k (eventsOf steps) s' := by
  induction steps generalizing s with
  | nil =>
    obtain ⟨-, rfl⟩ := Prod.mk.inj h
    exact .refl hs
  | cons step rest ih =>
    obtain ⟨⟨⟩, s₁, hstep, hrest⟩ := ok_of_bind h
    have hstep := tallies_carryOutStep hr hs hsub hstep
    rw [show step :: rest = [step] ++ rest from rfl, eventsOf_append]
    exact hstep.trans (ih hstep.attends (hstep.subscribed hsub) hrest)

end Telling

end Act

/-! ### Runs in which the collector is left in peace -/

namespace Session

/-- A run of a session in which nothing disturbs a collector, with the calls of the tracker that it is
attached to. Requests that observers make are part of it like others. -/
inductive Metered (i k : Nat) (s : Session) : List Call → Session → Prop
  /-- nothing has happened yet -/
  | nil : Metered i k s [] s
  /-- a transition is requested, and no observer fails -/
  | call {calls : List Call} {depth : Nat} {s₁ s₂ : Session} {t : Tracker} {x : Transition}
      (hrun : Metered i k s calls s₁) (ht : s₁.trackers[i]? = some t)
      (hcall : (Act.carryOutSteps (Act.respondUndisturbed i k depth) i (t.plan x).steps).ran s₁ =
        (.ok (), s₂)) : Metered i k s (calls ++ [⟨t, x⟩]) s₂
  /-- something else happens that leaves alone what the tracker remembers, and the collector -/
  | meanwhile {calls : List Call} {s₁ s₂ : Session} (hrun : Metered i k s calls s₁)
      (hkeep : KeepsAt i s₁ s₂) (htallies : s₁.Tallies i k [] s₂) : Metered i k s calls s₂

namespace Metered

variable {i k : Nat} {s s₁ s' : Session} {calls more : List Call} {config : Config}

theorem append (h : Metered i k s calls s₁) (h' : Metered i k s₁ more s') :
    Metered i k s (calls ++ more) s' := by
  induction h' with
  | nil => exact (List.append_nil calls).symm ▸ h
  | call _ ht hcall ih => exact List.append_assoc .. ▸ .call ih ht hcall
  | meanwhile _ hkeep htallies ih => exact .meanwhile ih hkeep htallies

/-- The collector adds the events of the calls, each of them once. -/
theorem tallies (h : Metered i k s calls s') (hs : s.Attends i k) (hsub : s.Subscribed i k) :
    s.Tallies i k (calls.flatMap Call.events) s' := by
  induction h with
  | nil => exact .refl hs
  | @call calls depth s₁ s₂ t x hrun ht hcall ih =>
    rw [List.flatMap_append, List.flatMap_singleton]
    exact ih.trans (Act.tallies_carryOutSteps (Act.hushed_respond i k depth) ih.attends
      (ih.subscribed hsub) hcall)
  | meanwhile hrun hkeep htallies ih =>
    rw [← List.append_nil (List.flatMap _ _)]
    exact ih.trans htallies

/-- The calls are a history of the tracker. -/
theorem history (h : Metered i k s calls s') (hs : s.HasHistory i config [] (.fresh config)) :
    s'.HasHistory i config calls (.fresh config) := by
  induction h with
  | nil => exact hs
  | @call calls depth s₁ s₂ t x hrun ht hcall ih =>
    exact ih.call (Act.sparing_respondUndisturbed i k depth) ht hcall
  | meanwhile hrun hkeep htallies ih => exact ih.keeps hkeep

end Metered

/-! ### Every session that disturbs nothing is such a run -/

/-- What led from one session to another is a run in which the collector is left in peace. -/
def Meters (i k : Nat) (s s' : Session) : Prop :=
  s.Attends i k → s.Subscribed i k → s.HasLog i → s'.HasLog i ∧ ∃ calls, Metered i k s calls s'

instance (i k : Nat) : Discreet i k (Meters i k) where
  chains :=
    { refl := fun _ _ _ hlog => ⟨hlog, [], .nil⟩
      trans := by
        intro s s' s'' h h' hs hsub hlog
        obtain ⟨hlog, calls, hrun⟩ := h hs hsub hlog
        have htallies := hrun.tallies hs hsub
        obtain ⟨hlog, more, hrun'⟩ := h' htallies.attends (htallies.subscribed hsub) hlog
        exact ⟨hlog, _, hrun.append hrun'⟩ }
  of_not hs hs' := absurd hs' hs
  of_tallies _ hkeep hann hlogs htallies _ _ hlog :=
    ⟨Lenient.of_keeps (R := KeepsLog i) hkeep hann hlogs hlog, [],
      .meanwhile .nil hkeep htallies⟩

/-- A transition of the tracker is a call. -/
theorem takes_meters (i k depth : Nat) : Act.Takes i (Meters i k) (Act.respondUndisturbed i k depth) := by
  intro t x s ht
  rw [Act.AlongAt, Act.carryOut, Act.ran_bind]
  by_cases hlog : s.HasLog i
  · obtain ⟨⟨⟩, s₂, hran, hlog₂⟩ :=
      Act.unfailing_carryOutSteps (Act.unfailing_respondUndisturbed i k depth) (t.plan x).steps s hlog
    rw [hran]
    have hcall : Meters i k s s₂ := fun _ _ _ => ⟨hlog₂, _, .call .nil ht hran⟩
    have hend : (Act.ofExcept ((t.plan x).outcome.mapError .refused)).Along (Meters i k) :=
      Act.along_ofExcept _
    exact Discreet.chains.trans hcall (hend s₂)
  · exact fun _ _ h => absurd h hlog

/-- Requests are carried out as they are if none of them, nor any that observers make, disturbs the
collector, and no observer fails. -/
def Undisturbed (i k : Nat) : List Request → Session → Prop
  | [], _ => True
  | r :: rest, s =>
    s.stepBy (Act.performUndisturbed i k (Act.respondUndisturbed i k nestingLimit)) r = s.step r ∧
      Undisturbed i k rest (s.step r).2

/-- Whatever is requested of a session that does not disturb the collector, the calls of the tracker are such
a run as long as no observer fails. -/
theorem metered_steps {i k : Nat} {s : Session} {rs : List Request} (hs : s.Attends i k)
    (hsub : s.Subscribed i k) (hlog : s.HasLog i) (h : Undisturbed i k rs s) :
    ∃ calls, Metered i k s calls (s.after rs) := by
  have hall : Meters i k s (s.after rs) := by
    clear hs hsub hlog
    induction rs generalizing s with
    | nil => exact Discreet.chains.refl s
    | cons r rest ih =>
      obtain ⟨hstep, hrest⟩ := h
      have hr := Act.along_respondUndisturbed (fun depth _ => takes_meters i k depth) nestingLimit
      have hfirst : Meters i k s (s.step r).2 := by
        rw [← hstep]
        exact along_stepBy (Act.along_performUndisturbed hr (takes_meters i k nestingLimit)) s r
      exact Discreet.chains.trans hfirst (ih hrest)
  exact (hall hs hsub hlog).2

/-! ### A collector that is attached to a new tracker -/

/-- A tracker has done nothing yet, though others may have subscribed to it, and a collector has no totals,
though it may be attached. -/
structure Ready (s : Session) (i k : Nat) (config : Config) : Prop where
  orderly : s.Orderly
  tracker : ∃ log t u, Tracker.create config log = .ok t ∧ s.trackers[i]? = some u ∧ t.Keeps u
  collector : ∃ c, s.collectors[k]? = some c ∧ c.totals = {}

/-- The session after a collector has been attached to a tracker. -/
def attached (s : Session) (i k : Nat) : Session :=
  ((Act.attach k i).ran s).2

/-- After the collector has been attached it hears of everything that the tracker does from the beginning. -/
theorem Ready.attached {s : Session} {i k : Nat} {config : Config} (h : s.Ready i k config) :
    (s.attached i k).Attends i k ∧ (s.attached i k).Subscribed i k ∧ (s.attached i k).HasLog i ∧
      (s.attached i k).totals? k = some {} ∧ (s.attached i k).HasHistory i config [] (.fresh config) := by
  obtain ⟨c, hc, htotals⟩ := h.collector
  obtain ⟨log, t, u, hcreate, hu, hk⟩ := h.tracker
  obtain ⟨hcore, hconfig, hidle, -⟩ := Tracker.of_create hcreate
  have hkeeps : KeepsAt i s (s.attached i k) := Act.along_attach (R := KeepsAt i) k i s
  obtain ⟨v, hv, hkv⟩ := hkeeps u hu
  -- the collector is detached, subscribes, and writes to its log
  obtain ⟨hnone, -⟩ | ⟨c', s₁, hc', hran, horderly, hc₁⟩ := Act.detach_cases (k := k) h.orderly
  · rw [hc] at hnone
    cases hnone
  obtain rfl := Option.some.inj (hc.symm.trans hc')
  obtain ⟨t₁, ht₁, -⟩ : ∃ t₁, s₁.trackers[i]? = some t₁ ∧ u.Keeps t₁ := by
    have hdetach : KeepsAt i s ((Act.detach k).ran s).2 := Act.along_detach (R := KeepsAt i) k s
    rw [hran] at hdetach
    exact hdetach u hu
  have hsub := horderly.subscribed_subscribing hc₁ rfl ht₁
  have hattends := (horderly.subscribing hc₁ rfl i).attends (getElem?_subscribing hc₁ i) rfl
  have htotals₁ : (s₁.subscribing i k).totals? k = some {} := by
    rw [totals?, getElem?_subscribing hc₁, ← htotals]
    rfl
  have htallies : (s₁.subscribing i k).Tallies i k [] (s.attached i k) := by
    have hwrite := Act.along_writeOfCollector (R := fun s s' => s.Attends i k → s.Tallies i k [] s') k
      Collector.attachedMessage (s₁.subscribing i k) hattends
    rw [Session.attached, Act.ran_attach hran]
    exact hwrite
  have hlog : (s.attached i k).HasLog i := (Act.keepsOrder_attach k i s h.orderly).hasLog hv
  have hk := hk.trans hkv
  exact ⟨htallies.attends, htallies.subscribed hsub, hlog, htallies.totals _ htotals₁, v, hv,
    hk.config.trans hconfig, hk.announcing.trans hidle, by rw [hk.core, hcore]; exact .nil⟩

end Session

end RadioOccupancy
