import RadioOccupancy.Proofs.Session.Requests

/-!
What requests can do to a tracker.

    plan of the tracker    change  announce                        announce
    observers                      transmit refused, getState, …
    what it remembers      new     same                            same

A relation about one tracker that minds neither what happens to others nor what becomes of the observers of
the tracker holds across all that observers do, if only it holds across the transitions of the tracker
(`Act.along_respond`), and then across whatever is requested of a session (`Session.along_steps`). It follows
that, while a tracker is announcing something, observers leave what it remembers as it is
(`Act.sparing_respond`).
-/

namespace RadioOccupancy

namespace Act

/-! ### Actions about trackers and collectors -/

section Mindful
open Mindful

variable {α : Type} {i : Nat} {R : Session → Session → Prop} [hR : Mindful i R]
include hR

theorem along_modifyCollector (index : Nat) (f : Collector → Collector) :
    (modifyCollector index f).Along R :=
  Along.modify fun _ => of_trackers rfl (Nat.le_refl _)

theorem along_modifyTracker {f : Tracker → Tracker} (hf : ∀ t : Tracker, t.Keeps (f t)) (j : Nat) :
    (modifyTracker j f).Along R :=
  Along.modify fun s => of_modifyTracker (.modifyTracker hf j s)

theorem along_modifyTracker_ne {j : Nat} (h : j ≠ i) (f : Tracker → Tracker) :
    (modifyTracker j f).Along R :=
  Along.modify fun s => of_modifyTracker (.modifyTracker_ne h f s)

/-! ### Announcements -/

section Announcements

variable {respond : Respond}

theorem along_callSubscriber (hr : ∀ c, (respond c).Along R) (event : TraceEvent)
    (s : Subscriber) : (callSubscriber respond event s).Along R := by
  cases s with
  | observer id => exact hr _
  | collector index => exact along_modifyCollector _ _

theorem along_callSubscribers (hr : ∀ c, (respond c).Along R) (index : Nat) (event : TraceEvent) :
    ∀ entries, (callSubscribers respond index event entries).Along R
  | [] => along_pure _
  | e :: rest => by
    have ih := along_callSubscribers hr index event rest
    refine (along_tracker index).then fun t => ?_
    split
    · refine (along_modifyTracker ?_ index).then fun _ =>
        (along_callSubscriber hr event _).then fun _ => ih
      exact fun _ => ⟨rfl, rfl, rfl, rfl⟩
    · exact ih

theorem along_emit (hr : ∀ c, (respond c).Along R) (index : Nat) (event : TraceEvent) :
    (emit respond index event).Along R :=
  (along_tracker index).then fun _ =>
    (along_callSubscribers hr index event _).then fun _ => along_pure _

theorem along_giveNotice (hr : ∀ c, (respond c).Along R) (index : Nat) (before : Tracker)
    (n : Notice) : (giveNotice respond index before n).Along R :=
  along_giveNotice_of hr (along_emit hr index) before n

theorem along_giveNotices (hr : ∀ c, (respond c).Along R) (index : Nat) (before : Tracker)
    (ns : List Notice) : (giveNotices respond index before ns).Along R :=
  along_giveNotices_of hr (along_emit hr index) before ns

/-- An announcement of another tracker. -/
theorem along_announce (hr : ∀ c, (respond c).Along R) {index : Nat} (h : index ≠ i)
    (ns : List Notice) : (announce respond index ns).Along R :=
  along_announce_of hr (along_emit hr index) (fun f _ => along_modifyTracker_ne h f) ns

/-- The steps of a plan of another tracker. -/
theorem along_carryOutSteps (hr : ∀ c, (respond c).Along R) {index : Nat} (h : index ≠ i)
    (steps : List Step) : (carryOutSteps respond index steps).Along R :=
  along_carryOutSteps_of hr (along_emit hr index) (fun f _ => along_modifyTracker_ne h f) steps

end Announcements

/-! ### Requests -/

section Requests

/-- The relation holds across the transitions of the tracker. -/
def Takes (i : Nat) (R : Session → Session → Prop) (respond : Respond) : Prop :=
  ∀ t x s, s.trackers[i]? = some t → (carryOut respond i (Tracker.plan t x)).AlongAt R s

variable {respond : Respond}

/-- A change of observers, and an answer. -/
theorem along_modifyTracker_pure {index : Nat} {f : Tracker → Tracker} {a : α}
    (h : ∀ t : Tracker, t.Keeps (f t)) :
    Along R (do
      modifyTracker index f
      return a) :=
  (along_modifyTracker h index).then fun _ => along_pure a

theorem along_performOnTracker (hr : ∀ c, (respond c).Along R) (ht : Takes i R respond) (index : Nat)
    (r : TrackerRequest) : (performOnTracker respond index r).Along R := by
  intro s
  refine (along_tracker index s).then fun t hran => ?_
  obtain ⟨hs, hsame⟩ := getElem?_of_ran_tracker hran
  rw [hsame]
  cases r with
  | transition x =>
    have hcarry : (carryOut respond index (t.plan x)).AlongAt R s := by
      by_cases hi : index = i
      · exact hi ▸ ht t x s (hi ▸ hs)
      · exact (along_carryOutSteps hr hi _).then (fun _ => along_ofExcept _) s
    exact hcarry.then fun _ _ => along_pure _ _
  | create | listenerCount | subscriberCount | view => exact along_pure _ _
  | register | unregister | setOkCallback | setErrorCallback | subscribe | unsubscribe =>
    refine along_modifyTracker_pure ?_ _
    exact fun _ => ⟨rfl, rfl, rfl, rfl⟩
  | emit =>
    refine Along.then ?_ (fun _ => along_pure _) _
    exact along_emit hr _ _
  | ask => exact along_askTracker _ _ _ _ _
  | dispose =>
    refine Along.ite ?_ (along_pure _) _
    refine Along.then ?_ fun _ => (along_write _ _).then fun _ => along_pure _
    refine along_modifyTracker ?_ index
    exact fun _ => ⟨rfl, rfl, rfl, rfl⟩

theorem along_createTracker (name : String) (preset : Option String) (overrides : Overrides) :
    (createTracker name preset overrides).Along R :=
  along_createTracker_of name preset overrides fun _ _ _ _ _ _ hcreate ht _ _ hlogs =>
    of_create hcreate ht hlogs

theorem along_detach (index : Nat) : (detach index).Along R := by
  refine along_detach_of (along_modifyCollector index) fun _ => along_modifyTracker ?_
  exact fun _ => ⟨rfl, rfl, rfl, rfl⟩

theorem along_attach (index tracker : Nat) : (attach index tracker).Along R := by
  refine along_attach_of (along_detach index) (along_modifyCollector index)
    (fun _ => along_modifyTracker ?_) tracker
  exact fun _ => ⟨rfl, rfl, rfl, rfl⟩

/-- What holds across what observers do and across the transitions of the tracker, holds across each
request. -/
theorem along_perform (hr : ∀ c, (respond c).Along R) (ht : Takes i R respond) (r : Request) :
    (perform respond r).Along R :=
  fun s => alongAt_perform_of (fun name q _ => along_performRegistry hr name q s)
    (fun _ q _ => alongAt_performTracker_of (fun _ _ => along_createTracker _ _ _ s)
      fun index _ => along_performOnTracker hr ht index q s)
    fun _ _ _ => alongAt_performCollector_of
      (fun _ _ _ htrackers _ _ hlogs => of_trackers htrackers (Nat.le_of_eq (congrArg Array.size hlogs.symm)))
      (fun _ m j _ _ => along_attach m j) (fun m _ _ => along_detach m)
      fun m _ _ => along_modifyCollector m _

end Requests

/-- What holds across the transitions of the tracker if it does across what observers do meanwhile, holds
across all that observers do. -/
theorem along_respond (ht : ∀ depth, (∀ c, (respond depth c).Along R) → Takes i R (respond depth)) :
    ∀ depth c, (respond depth c).Along R :=
  along_respond_of fun depth hr => along_perform hr (ht depth hr)

end Mindful

end Act

namespace Session

/-- Carries out a request as told. -/
def stepBy (perform : Request → Act Value) (s : Session) (r : Request) : Answer × Session :=
  let (result, s) := (Act.reply perform r).ran { s with events := #[] }
  match result with
  | .ok reply => (⟨reply, s.events⟩, s)
  | .error fault => (⟨{ result := .error fault }, s.events⟩, s)

/-- Carries out requests in turn as told. -/
def runBy (perform : Request → Act Value) (s : Session) : List Request → List Answer
  | [] => []
  | r :: rest =>
    let (answer, s) := s.stepBy perform r
    answer :: runBy perform s rest

theorem run_eq_runBy (s : Session) (rs : List Request) :
    s.run rs = s.runBy (Act.perform (Act.respond nestingLimit)) rs := by
  induction rs generalizing s with
  | nil => rfl
  | cons r rest ih => exact congrArg _ (ih _)

/-- A session after requests that are carried out in turn. -/
def after (s : Session) (rs : List Request) : Session :=
  rs.foldl (fun s r => (s.step r).2) s

/-- What holds across each request as it is carried out holds across a step of a session. -/
theorem along_stepBy {R : Session → Session → Prop} [Tolerant R] {perform : Request → Act Value}
    (hp : ∀ r, (perform r).Along R) (s : Session) (r : Request) : R s (s.stepBy perform r).2 := by
  have hevents : R s { s with events := #[] } := Tolerant.of_same rfl rfl (Nat.le_refl _)
  have hstep : (s.stepBy perform r).2 = ((Act.reply perform r).ran { s with events := #[] }).2 := by
    rw [stepBy]
    rcases (Act.reply perform r).ran { s with events := #[] } with ⟨_ | _, _⟩ <;> rfl
  rw [hstep]
  exact Tolerant.chains.trans hevents (Act.along_reply hp r _)

/-- So it holds across whatever is requested of a session. -/
theorem along_step {i : Nat} {R : Session → Session → Prop} [Mindful i R]
    (ht : ∀ depth, (∀ c, (Act.respond depth c).Along R) → Act.Takes i R (Act.respond depth))
    (s : Session) (r : Request) : R s (s.step r).2 :=
  have hr := Act.along_respond ht nestingLimit
  along_stepBy (Act.along_perform hr (ht _ hr)) s r

theorem along_steps {i : Nat} {R : Session → Session → Prop} [Mindful i R]
    (ht : ∀ depth, (∀ c, (Act.respond depth c).Along R) → Act.Takes i R (Act.respond depth))
    (s : Session) (rs : List Request) : R s (s.after rs) := by
  induction rs generalizing s with
  | nil => exact Mindful.chains.refl s
  | cons r rest ih => exact Mindful.chains.trans (along_step ht s r) (ih _)

end Session

/-! ### What a tracker keeps while it is announcing -/

/-- While a tracker is announcing something, it plans nothing but log messages. -/
theorem Tracker.logs_of_announcing (t : Tracker) (h : t.announcing ≠ 0) (x : Transition) :
    ∀ step ∈ (t.plan x).steps, ∃ m, step = .log m := by
  obtain ⟨cause, hun⟩ : ∃ cause, t.unavailable? = some cause := by
    rw [unavailable?, if_pos h]
    split
    · exact ⟨_, rfl⟩
    · exact ⟨_, rfl⟩
  rw [plan, hun]
  exact (Planning.Asks.refuse _ _).plan _

/-- If the tracker at the index is announcing something, it keeps all but its observers. -/
def Spares (i : Nat) (s s' : Session) : Prop :=
  ∀ t, s.trackers[i]? = some t → t.announcing ≠ 0 → ∃ t', s'.trackers[i]? = some t' ∧ t.Keeps t'

instance (i : Nat) : Lenient i (Spares i) where
  chains :=
    { refl := fun _ t ht _ => ⟨t, ht, .refl t⟩
      trans := fun h h' t ht hne => by
        obtain ⟨t', ht', hk⟩ := h t ht hne
        obtain ⟨t'', ht'', hk'⟩ := h' t' ht' (by rwa [hk.announcing])
        exact ⟨t'', ht'', hk.trans hk'⟩ }
  of_keeps h _ _ t ht _ := h t ht

namespace Act

variable {i : Nat}

/-- A tracker that is announcing something takes no transition. -/
theorem takes_spares (i : Nat) (respond : Respond) : Takes i (Spares i) respond := by
  intro t x s hs u hu hne
  obtain rfl := Option.some.inj (hs.symm.trans hu)
  have hcarry : (carryOut respond i (t.plan x)).Along (Spares i) :=
    along_carryOut (t.logs_of_announcing hne x)
  exact hcarry s t hu hne

/-- Whatever observers do while a tracker is announcing something, it keeps what it remembers. -/
theorem sparing_respond (depth : Nat) (c : ObserverCall) : (respond depth c).Along (Spares i) :=
  along_respond (fun _ _ => takes_spares i _) depth c

/-- An announcement marks the tracker, gives its notices, and takes the mark off however they end. -/
theorem ran_announce {respond : Respond} (ns : List Notice) {s : Session} {t : Tracker}
    (h : s.trackers[i]? = some t) :
    (announce respond i ns).ran s =
      let told := (giveNotices respond i t ns).ran
        (s.modifyTracker i fun t => { t with announcing := t.announcing + 1 })
      (told.1, told.2.modifyTracker i fun t => { t with announcing := t.announcing - 1 }) := by
  rw [announce, ran_bind, ran_tracker h]
  rfl

/-- When an announcement is over, the tracker is as it was, whether an observer failed or not. -/
theorem keeps_announce {respond : Respond} (hr : ∀ c, (respond c).Along (Spares i)) (ns : List Notice)
    {s : Session} {t : Tracker} (h : s.trackers[i]? = some t) :
    ∃ t', ((announce respond i ns).ran s).2.trackers[i]? = some t' ∧ t.Keeps t' := by
  have h₁ := getElem?_modifyTracker h fun t => { t with announcing := t.announcing + 1 }
  obtain ⟨t₂, h₂, hk⟩ := along_giveNotices hr i t ns _ _ h₁ (Nat.succ_ne_zero _)
  rw [ran_announce ns h]
  refine ⟨_, getElem?_modifyTracker h₂ _, hk.core, hk.config, hk.log, ?_⟩
  change t₂.announcing - 1 = t.announcing
  rw [hk.announcing]
  exact Nat.add_sub_cancel _ _

end Act

end RadioOccupancy
