import RadioOccupancy.Proofs.Planning
import RadioOccupancy.Proofs.Session.Relations

/-!
Requests, and relations that do not mind what happens outside of trackers and collectors.

Such a relation holds across everything that a request can do, except where trackers, collectors and listener
registries change. What is shown about a request here leaves these places open: `along_carryOutSteps_of`,
`along_createTracker_of`, `along_attach_of` and the like ask for the relation across the few changes that a
request makes there, and `alongAt_perform_of` puts them together. What observers do is a request again, so
`along_respond_of` goes by induction on how deeply the calls to observers are nested.
-/

namespace RadioOccupancy

/-! ### Questions plan nothing but log messages -/

theorem Query.asks_state (config : Config) (now : Number) (on : Sensing) :
    Planning.Asks (Query.state config now on) :=
  (Planning.Asks.checkTime _ _).bind fun _ => (Planning.Asks.check _).bind fun _ =>
    Planning.Asks.core.bind fun _ => Planning.Asks.check _

theorem Query.asks_timeToIdle (config : Config) (now : Number) (on : Sensing) :
    Planning.Asks (Query.timeToIdle config now on) := by
  refine (Planning.Asks.checkTime _ _).bind fun _ => (Planning.Asks.check _).bind fun _ =>
    Planning.Asks.core.bind fun core => ?_
  split
  · exact Planning.Asks.pure _
  · exact (Planning.Asks.log _).bind fun _ => Planning.Asks.throw _

theorem Query.asks_timeSinceBusy (config : Config) (now : Number) (on : Sensing) :
    Planning.Asks (Query.timeSinceBusy config now on) :=
  (Planning.Asks.checkTime _ _).bind fun _ => (Planning.Asks.check _).bind fun _ =>
    Planning.Asks.core.bind fun _ => Planning.Asks.check _

namespace Act

/-! ### Actions that leave all trackers and collectors alone -/

section Elsewhere
open Forgiving

variable {α β : Type} {R : Session → Session → Prop} [hR : Forgiving R]
include hR

theorem Along.then {x : Act α} {f : α → Act β} (hx : x.Along R) (hf : ∀ a, (f a).Along R) :
    (x >>= f).Along R :=
  hx.bind chains hf

/-- What has been looked at is there when it goes on. -/
theorem AlongAt.then {s : Session} {x : Act α} {f : α → Act β} (hx : x.AlongAt R s)
    (hf : ∀ a, (x.ran s).1 = .ok a → (f a).AlongAt R (x.ran s).2) : (x >>= f).AlongAt R s :=
  hx.bind chains hf

theorem along_pure (a : α) : (pure a : Act α).Along R :=
  Along.pure chains a

theorem along_throw (e : Fault) : (throw e : Act α).Along R :=
  Along.throw chains e

theorem along_get : (get : Act Session).Along R :=
  Along.get chains

theorem along_modify {f : Session → Session}
    (h : ∀ s, (f s).trackers = s.trackers ∧ (f s).collectors = s.collectors ∧
      (f s).registries = s.registries ∧ s.logs.size ≤ (f s).logs.size) :
    (modify f : Act Unit).Along R :=
  Along.modify fun s => of_alike (h s).1 (h s).2.1 (h s).2.2.1 (h s).2.2.2

/-- A change that leaves trackers, collectors and registries alone, and an answer. -/
theorem along_modify_pure {f : Session → Session} {a : α}
    (h : ∀ s, (f s).trackers = s.trackers ∧ (f s).collectors = s.collectors ∧
      (f s).registries = s.registries ∧ s.logs.size ≤ (f s).logs.size) :
    Along R (do
      modify f
      return a) :=
  (along_modify h).then fun _ => along_pure a

theorem along_ofExcept (r : Except Fault α) : (ofExcept r).Along R :=
  Along.ofExcept chains r

theorem along_named (entries : Named α) (name : String) : (named entries name).Along R :=
  Along.named chains entries name

theorem along_tracker (index : Nat) : (tracker index).Along R :=
  Along.tracker chains index

theorem along_collector (index : Nat) : (collector index).Along R := by
  refine along_get.then fun s => ?_
  split
  · exact along_pure _
  · exact along_throw _

theorem along_logAt (index : Nat) : (logAt index).Along R := by
  refine along_get.then fun s => ?_
  split
  · exact along_pure _
  · exact along_throw _

theorem along_see (e : Event) : (see e).Along R :=
  along_modify fun _ => ⟨rfl, rfl, rfl, Nat.le_refl _⟩

theorem along_setLog (index : Nat) (l : Log) : (setLog index l).Along R :=
  along_modify fun _ => ⟨rfl, rfl, rfl, Nat.le_of_eq (Array.size_setIfInBounds ..).symm⟩

theorem along_write (index : Nat) (m : Log.Message) : (write index m).Along R := by
  refine (along_logAt index).then fun l => along_get.then fun s =>
    (along_setLog index _).then fun _ => ?_
  split
  · exact along_see _
  · exact along_pure _

/-- The relation holds across a loop if it holds across its body. -/
theorem along_forIn {l : List β} {f : β → PUnit → Act (ForInStep PUnit)}
    (hf : ∀ b u, (f b u).Along R) (u : PUnit) : (forIn l u f).Along R := by
  induction l generalizing u with
  | nil => exact along_pure _
  | cons b rest ih =>
    rw [List.forIn_cons]
    refine (hf b u).then fun r => ?_
    cases r with
    | done => exact along_pure _
    | yield => exact ih _

variable {respond : Respond}

theorem along_callListeners (hr : ∀ c, (respond c).Along R) (call : ListenerCall) :
    ∀ members, (callListeners respond call members).Along R
  | [] => along_pure _
  | _ :: rest => (hr _).then fun _ => along_callListeners hr call rest

section Announcements

variable {index : Nat} (hr : ∀ c, (respond c).Along R)
  (hemit : ∀ event, (emit respond index event).Along R)
include hr hemit

theorem along_giveNotice_of (before : Tracker) (n : Notice) :
    (giveNotice respond index before n).Along R := by
  cases n with
  | listeners call => exact (along_tracker index).then fun t => along_callListeners hr call _
  | trace event => exact (hemit event).then fun _ => along_pure _
  | deliver delivery =>
    rw [giveNotice]
    split
    · exact hr _
    · exact along_pure _

theorem along_giveNotices_of (before : Tracker) :
    ∀ ns, (giveNotices respond index before ns).Along R
  | [] => along_pure _
  | n :: rest => (along_giveNotice_of hr hemit before n).then fun _ => along_giveNotices_of before rest

variable (hnote : ∀ f : Tracker → Tracker,
  (∀ t, (f t).subscriptions = t.subscriptions ∧ (f t).log = t.log) → (modifyTracker index f).Along R)
include hnote

theorem along_announce_of (ns : List Notice) : (announce respond index ns).Along R := by
  refine (along_tracker index).then fun t => (hnote _ ?_).then fun _ =>
    Along.ensuring chains (along_giveNotices_of hr hemit t ns) (hnote _ ?_)
  · exact fun _ => ⟨rfl, rfl⟩
  · exact fun _ => ⟨rfl, rfl⟩

/-- The steps of a plan, if the relation holds across what the tracker emits and what it notes about
itself. -/
theorem along_carryOutSteps_of : ∀ steps, (carryOutSteps respond index steps).Along R
  | [] => along_pure _
  | step :: rest => by
    have ih := along_carryOutSteps_of rest
    have hstep : (carryOutStep respond index step).Along R := by
      cases step with
      | change c => exact hnote _ fun _ => ⟨rfl, rfl⟩
      | announce ns => exact along_announce_of hr hemit hnote ns
      | log m => exact (along_tracker index).then fun t => along_write _ m
    exact hstep.then fun _ => ih

end Announcements

/-- Log messages of any tracker. -/
theorem along_carryOutLogs (index : Nat) :
    ∀ steps : List Step, (∀ s ∈ steps, ∃ m, s = .log m) → (carryOutSteps respond index steps).Along R
  | [], _ => along_pure _
  | step :: rest, h => by
    have ih := along_carryOutLogs index rest fun s hs => h s (List.mem_cons_of_mem _ hs)
    obtain ⟨m, rfl⟩ := h step List.mem_cons_self
    have hstep : (carryOutStep respond index (.log m)).Along R :=
      (along_tracker index).then fun t => along_write _ m
    exact hstep.then fun _ => ih

/-- A plan that holds nothing but log messages. -/
theorem along_carryOut {index : Nat} {plan : Plan α} (h : ∀ s ∈ plan.steps, ∃ m, s = .log m) :
    (carryOut respond index plan).Along R :=
  (along_carryOutLogs _ _ h).then fun _ => along_ofExcept _

theorem along_performTable (name : String) (r : TableRequest) : (performTable name r).Along R := by
  cases r with
  | create =>
    exact (along_ofExcept _).then fun _ => along_modify_pure fun _ => ⟨rfl, rfl, rfl, Nat.le_refl _⟩
  | detect =>
    exact along_get.then fun _ => (along_named _ _).then fun _ => (along_ofExcept _).then
      fun _ => along_modify_pure fun _ => ⟨rfl, rfl, rfl, Nat.le_refl _⟩
  | get | isBusyAt =>
    exact along_get.then fun _ => (along_named _ _).then fun _ => (along_ofExcept _).then
      fun _ => along_pure _
  | size | entries => exact along_get.then fun _ => (along_named _ _).then fun _ => along_pure _

theorem along_fillLog (index : Nat) (stem : String) :
    ∀ count next, (fillLog index stem count next).Along R
  | 0, _ => along_pure _
  | count + 1, next =>
    (along_logAt index).then fun _ => along_get.then fun _ => (along_setLog _ _).then
      fun _ => along_fillLog index stem count (next + 1)

theorem along_performLog (name : Option String) (r : LogRequest) : (performLog name r).Along R := by
  have hnamed : (logNamed name).Along R := by
    cases name with
    | some name => exact along_get.then fun _ => along_named _ _
    | none => exact along_get.then fun _ => along_pure _
  refine hnamed.then fun index => (along_logAt index).then fun l => ?_
  cases r with
  | setLevel | clear => exact (along_setLog _ _).then fun _ => along_pure _
  | setCapacity =>
    dsimp only
    split
    · exact (along_setLog _ _).then fun _ => along_pure _
    · exact along_throw _
  | log => exact (along_write _ _).then fun _ => along_pure _
  | fill => exact (along_fillLog _ _ _ _).then fun _ => along_pure _
  | getLevel | isEnabled | entries | entriesAt | summary => exact along_pure _

/-- Questions may be asked of a tracker at any time. -/
theorem along_askTracker (index : Nat) (question : BandQuestion)
    (now : Number) (on : Sensing) : (askTracker respond index question now on).Along R := by
  refine (along_tracker index).then fun t => ?_
  cases question with
  | state | isState =>
    exact (along_carryOut ((Query.asks_state _ _ _).plan _)).then fun _ => along_pure _
  | timeToIdle =>
    exact (along_carryOut ((Query.asks_timeToIdle _ _ _).plan _)).then fun _ => along_pure _
  | timeSinceBusy =>
    exact (along_carryOut ((Query.asks_timeSinceBusy _ _ _).plan _)).then fun _ => along_pure _

/-- A tracker that is created has a log, and nothing else yet. -/
theorem along_createTracker_of (name : String) (preset : Option String) (overrides : Overrides)
    (hpush : ∀ (s s' : Session) (config : Config) (log : Nat) (t : Tracker), log < s.logs.size →
      Tracker.create config log = .ok t → s'.trackers = s.trackers.push t → s'.collectors = s.collectors →
        s'.registries = s.registries → s'.logs = s.logs → R s s') :
    (createTracker name preset overrides).Along R := by
  refine along_get.then fun s => (along_ofExcept _).then fun config => ?_
  intro s₁
  refine AlongAt.then (along_ofExcept _ s₁) fun t ht => ?_
  rw [ran_ofExcept] at ht ⊢
  refine AlongAt.then (along_write _ _ s₁) fun _ hwritten => ?_
  have hlog := lt_of_ran_write hwritten
  obtain ⟨table, rfl⟩ := Tracker.eq_of_create ht
  exact hpush _ _ config _ _ hlog ht rfl rfl rfl rfl

/-- A request to a tracker, if the relation holds across its creation and what is requested of it. -/
theorem alongAt_performTracker_of {s : Session} {name : String} {r : TrackerRequest}
    (hcreate : ∀ preset overrides, (createTracker name preset overrides).AlongAt R s)
    (hperform : ∀ index, s.trackerNames.get? name = some index →
      (performOnTracker respond index r).AlongAt R s) : (performTracker respond name r).AlongAt R s := by
  cases r with
  | create => exact (hcreate _ _).then fun _ _ => along_pure _ _
  | _ =>
    refine AlongAt.then (along_get s) fun s' hs' => ?_
    obtain rfl := Except.ok.inj hs'
    refine AlongAt.then (along_named _ _ _) fun index hindex => ?_
    obtain ⟨hindex, hsame⟩ := get?_of_ran_named hindex
    rw [hsame]
    exact hperform index hindex

/-- A collector is detached. -/
theorem along_detach_of {m : Nat} (hnote : ∀ f, (modifyCollector m f).Along R)
    (hremove : ∀ kind j, (modifyTracker j fun t =>
      { t with subscriptions := t.subscriptions.remove kind (.collector m) }).Along R) :
    (detach m).Along R := by
  refine (along_collector m).then fun c => ?_
  split
  · exact (along_forIn (fun kind _ => (hremove kind _).then fun _ => along_pure _) _).then fun _ => hnote _
  · exact along_pure _

/-- A collector is attached. -/
theorem along_attach_of {m : Nat} (hdetach : (detach m).Along R) (hnote : ∀ f, (modifyCollector m f).Along R)
    (hadd : ∀ kind j, (modifyTracker j fun t =>
      { t with subscriptions := t.subscriptions.add kind (.collector m) false }).Along R) (index : Nat) :
    (attach m index).Along R :=
  hdetach.then fun _ => (hnote _).then fun _ =>
    (along_forIn (fun kind _ => (hadd kind index).then fun _ => along_pure _) _).then fun _ =>
      (along_collector m).then fun _ => along_write _ _

/-- A request to a collector, if the relation holds across its creation and where it is attached, detached or
reset. -/
theorem alongAt_performCollector_of {s : Session} {name : String} {r : CollectorRequest}
    (hpush : ∀ (s s' : Session) (c : Collector), s'.trackers = s.trackers →
      s'.collectors = s.collectors.push c → s'.registries = s.registries → s'.logs = s.logs → R s s')
    (hattach : ∀ t m j, r = .attach t → s.collectorNames.get? name = some m → (attach m j).Along R)
    (hdetach : ∀ m, r = .detach → s.collectorNames.get? name = some m → (detach m).Along R)
    (hreset : ∀ m, r = .reset → s.collectorNames.get? name = some m →
      (modifyCollector m fun c => { c with totals := {} }).Along R) :
    (performCollector name r).AlongAt R s := by
  have hlook (f : Nat → Collector → Act Value)
      (hf : ∀ m, s.collectorNames.get? name = some m → ∀ c, (f m c).Along R) : AlongAt R s (do
        let index ← named (← get).collectorNames name
        let c ← collector index
        f index c) := by
    refine AlongAt.then (along_get s) fun s' hs' => ?_
    obtain rfl := Except.ok.inj hs'
    refine AlongAt.then (along_named _ _ _) fun m hm => ?_
    exact Along.then (along_collector m) (hf m (get?_of_ran_named hm).1) _
  cases r with
  | create =>
    refine Along.then (Along.modify fun s => ?_) (fun _ => along_pure _) s
    exact hpush _ _ _ rfl rfl rfl rfl
  | attach t =>
    refine hlook _ fun m hm c => along_get.then fun _ => (along_named _ _).then fun j => ?_
    exact (hattach t m j rfl hm).then fun _ => along_pure _
  | detach => exact hlook _ fun m hm c => (hdetach m rfl hm).then fun _ => along_pure _
  | reset => exact hlook _ fun m hm c => (hreset m rfl hm).then fun _ => along_pure _
  | isAttached | totals => exact hlook _ fun m hm c => along_pure _
  | occupancy => exact hlook _ fun m hm c => (along_ofExcept _).then fun _ => along_pure _

/-- A request, if the relation holds across those to listener registries, to trackers and to collectors. -/
theorem alongAt_perform_of {s : Session} {r : Request}
    (hregistry : ∀ name q, r = .registry name q → (performRegistry respond name q).AlongAt R s)
    (htracker : ∀ name q, r = .tracker name q → (performTracker respond name q).AlongAt R s)
    (hcollector : ∀ name q, r = .collector name q → (performCollector name q).AlongAt R s) :
    (perform respond r).AlongAt R s := by
  cases r with
  | ask => exact along_ofExcept _ s
  | table => exact along_performTable _ _ s
  | registry name q => exact hregistry name q rfl
  | setClock | keepLog | script =>
    refine along_modify_pure ?_ s
    exact fun _ => ⟨rfl, rfl, rfl, Nat.le_refl _⟩
  | resetLog =>
    refine along_modify_pure ?_ s
    refine fun s => ⟨rfl, rfl, rfl, ?_⟩
    rw [Array.size_push]
    exact Nat.le_succ _
  | isCurrentLog =>
    refine Along.then ?_ (fun _ => ?_) s
    · exact along_get
    · exact (along_named _ _).then fun _ => along_get.then fun _ => along_pure _
  | log => exact along_performLog _ _ s
  | tracker name q => exact htracker name q rfl
  | collector name q => exact hcollector name q rfl
  | raise => exact along_throw _ s

theorem along_reply {p : Request → Act Value} (hp : ∀ r, (p r).Along R) (r : Request) :
    (reply p r).Along R := by
  refine Along.then (Along.attempt (hp r)) fun _ => ?_
  split
  · exact along_get.then fun _ => along_pure _
  · exact along_pure _

theorem along_runScript {p : Request → Act Value} (hp : ∀ r, (p r).Along R) :
    ∀ script, (runScript p script).Along R
  | [] => along_pure _
  | step :: rest => by
    have ih := along_runScript hp rest
    refine (along_reply hp _).then fun answer => (along_see _).then fun _ => ?_
    split
    · exact Along.ite ((along_throw _).then fun _ => ih) ih
    · exact ih

/-- What holds across each request, if it does across what observers do meanwhile, holds across all that
observers do. -/
theorem along_respond_of
    (hp : ∀ depth, (∀ c, (Act.respond depth c).Along R) → ∀ r, (perform (Act.respond depth) r).Along R) :
    ∀ depth c, (Act.respond depth c).Along R
  | 0, _ => along_throw _
  | depth + 1, _ =>
    (along_see _).then fun _ => along_get.then fun _ =>
      along_runScript (hp depth (along_respond_of hp depth)) _

end Elsewhere

/-- A request to a listener registry. -/
theorem along_performRegistry {R : Session → Session → Prop} [Tolerant R] {respond : Respond}
    (hr : ∀ c, (respond c).Along R) (name : String) (r : RegistryRequest) :
    (performRegistry respond name r).Along R := by
  have hset (f : Session → Named ListenerSet) :
      (modify fun s => { s with registries := f s } : Act Unit).Along R :=
    Along.modify fun _ => Tolerant.of_same rfl rfl (Nat.le_refl _)
  have hchange (f : ListenerSet → ListenerSet) : Along R (do
      let set ← named (← get).registries name
      modify fun s => { s with registries := s.registries.set name (f set) }) :=
    along_get.then fun _ => (along_named _ _).then fun _ => hset _
  cases r with
  | create => exact (hset _).then fun _ => along_pure _
  | register | clear => exact (hchange _).then fun _ => along_pure _
  | unregister =>
    exact along_get.then fun _ => (along_named _ _).then fun _ => (hchange _).then
      fun _ => along_pure _
  | has | size => exact along_get.then fun _ => (along_named _ _).then fun _ => along_pure _
  | notify call =>
    exact along_get.then fun _ => (along_named _ _).then fun _ =>
      (along_callListeners hr call _).then fun _ => along_pure _

/-- Log messages do not depend on observers. -/
theorem carryOutSteps_congr {respond known : Respond} (index : Nat) :
    ∀ steps : List Step, (∀ s ∈ steps, ∃ m, s = .log m) →
      carryOutSteps known index steps = carryOutSteps respond index steps
  | [], _ => rfl
  | step :: rest, h => by
    obtain ⟨m, rfl⟩ := h step List.mem_cons_self
    rw [carryOutSteps, carryOutSteps,
      carryOutSteps_congr index rest fun s hs => h s (List.mem_cons_of_mem _ hs)]
    rfl

/-- Nor do questions. -/
theorem askTracker_congr {respond known : Respond} (index : Nat) (question : BandQuestion)
    (now : Number) (on : Sensing) :
    askTracker known index question now on = askTracker respond index question now on := by
  have hcarry {α : Type} {p : Planning α} (h : Planning.Asks p) (core : Core) :
      carryOut known index (Planning.plan p core) = carryOut respond index (Planning.plan p core) := by
    rw [carryOut, carryOut, carryOutSteps_congr index _ (h.plan core)]
  rw [askTracker, askTracker]
  refine congrArg _ (funext fun t => ?_)
  cases question with
  | state => exact congrArg (· >>= _) (hcarry (Query.asks_state _ _ _) _)
  | isState s => exact congrArg (· >>= _) (hcarry (Query.asks_state _ _ _) _)
  | timeToIdle => exact congrArg (· >>= _) (hcarry (Query.asks_timeToIdle _ _ _) _)
  | timeSinceBusy => exact congrArg (· >>= _) (hcarry (Query.asks_timeSinceBusy _ _ _) _)

/-- Writing to a log changes no tracker. -/
theorem trackers_of_write (index : Nat) (m : Log.Message) (s : Session) :
    ((write index m).ran s).2.trackers = s.trackers :=
  along_write (R := fun s s' => s'.trackers = s.trackers) index m s

/-- A tracker lets go of its observers when it is disposed of for the first time. -/
theorem trackers_of_dispose (respond : Respond) {index : Nat} {s : Session} {t : Tracker}
    (ht : s.trackers[index]? = some t) : ((performOnTracker respond index .dispose).ran s).2.trackers =
      if t.disposed then s.trackers else (s.modifyTracker index Tracker.dispose).trackers := by
  rw [performOnTracker, ran_bind, ran_tracker ht, onward]
  cases t.disposed with
  | true => rfl
  | false =>
    have hwrite : (do
        write t.log Tracker.disposedMessage
        return Value.nothing).Along fun s s' => s'.trackers = s.trackers :=
      (along_write t.log Tracker.disposedMessage).then fun _ => along_pure _
    exact hwrite (s.modifyTracker index Tracker.dispose)

end Act

end RadioOccupancy
