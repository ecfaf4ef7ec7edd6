import RadioOccupancy.Proofs.Observation
import RadioOccupancy.Proofs.Reentrance
import RadioOccupancy.Proofs.Session.Faithful
import RadioOccupancy.Proofs.Session.Progress

/-!
A tracker that has been disposed of is done with for good.

    transmit                               receive     emit tx    receive
      listeners …                            refused     calls      refused
        dispose                                          who has
      subscribers …   change   log                       subscribed
    ------------------------------------   ----------------------------------
    the transition comes to its end        from here on it stays as it is

A transition that is under way when its tracker is disposed of comes to its end: it makes its changes, and
gives the rest of its notices. When it has returned, nothing is left to do for a transition of the tracker,
and no request leaves anything of the kind to do again, because each transition is refused before it does
anything (`Machine.Rests.next`). So whatever is requested later, the tracker remembers what it did and is as
it was for all who ask, and it calls observers for nothing but an event that it is requested to emit
(`Machine.disposal_is_final`).

A tracker that has not been disposed of takes the next transition when what it announces has been announced,
even if this failed (`Machine.Reachable.unavailable?_eq_none_iff`).
-/

namespace RadioOccupancy

/-- The tracker keeps all but its observers, and if it has been disposed of, this is not taken back. -/
structure Tracker.Amends (t t' : Tracker) : Prop where
  keeps : t.Keeps t'
  disposed : t.disposed = true → t'.disposed = true

theorem Tracker.Amends.refl (t : Tracker) : t.Amends t :=
  ⟨.refl t, id⟩

/-- So it is with the tracker at the index. -/
def AmendsAt (i : Nat) (s s' : Session) : Prop :=
  ∀ t, s.trackers[i]? = some t → ∃ t', s'.trackers[i]? = some t' ∧ t.Amends t'

instance (i : Nat) : Tolerant (AmendsAt i) where
  chains :=
    { refl := fun _ t ht => ⟨t, ht, .refl t⟩
      trans := fun h h' t ht => by
        obtain ⟨t', ht', hk⟩ := h t ht
        obtain ⟨t'', ht'', hk'⟩ := h' t' ht'
        exact ⟨t'', ht'', hk.keeps.trans hk'.keeps, fun hd => hk'.disposed (hk.disposed hd)⟩ }
  of_same h _ _ t ht := ⟨t, h ▸ ht, .refl t⟩

/-- If the tracker at the index has been disposed of, this is not taken back. -/
def StaysDisposed (i : Nat) (s s' : Session) : Prop :=
  ∀ t, s.trackers[i]? = some t → t.disposed = true →
    ∃ t', s'.trackers[i]? = some t' ∧ t'.disposed = true

instance (i : Nat) : Tolerant (StaysDisposed i) where
  chains :=
    { refl := fun _ t ht hd => ⟨t, ht, hd⟩
      trans := fun h h' t ht hd => by
        obtain ⟨t', ht', hd'⟩ := h t ht hd
        exact h' t' ht' hd' }
  of_same h _ _ t ht hd := ⟨t, h ▸ ht, hd⟩

theorem AmendsAt.staysDisposed {i : Nat} {s s' : Session} (h : AmendsAt i s s') : StaysDisposed i s s' := by
  intro t ht hd
  obtain ⟨t', ht', hamends⟩ := h t ht
  exact ⟨t', ht', hamends.disposed hd⟩

namespace Act

variable {i : Nat}

/-! ### Requests that call no observers -/

theorem along_amends {f : Tracker → Tracker} (hf : ∀ t : Tracker, t.Amends (f t)) (j : Nat) :
    (modifyTracker j f).Along (AmendsAt i) := by
  intro s t ht
  change ∃ t', (s.trackers.modify j f)[i]? = some t' ∧ _
  rw [Array.getElem?_modify, ht]
  split
  · exact ⟨f t, rfl, hf t⟩
  · exact ⟨t, rfl, .refl t⟩

theorem along_amends_ne {j : Nat} (h : j ≠ i) (f : Tracker → Tracker) :
    (modifyTracker j f).Along (AmendsAt i) := by
  intro s t ht
  change ∃ t', (s.trackers.modify j f)[i]? = some t' ∧ _
  rw [Array.getElem?_modify, if_neg h]
  exact ⟨t, ht, .refl t⟩

theorem amends_modifyCollector (k : Nat) (f : Collector → Collector) :
    (modifyCollector k f).Along (AmendsAt i) :=
  fun _ t ht => ⟨t, ht, .refl t⟩

/-- What is asked of a tracker may change its observers, and dispose of it. -/
theorem amends_performOnTracker {name : String} {q : TrackerRequest}
    (h : (Request.tracker name q).callsObservers = false) (index : Nat) :
    (performOnTracker silent index q).Along (AmendsAt i) := by
  refine (along_tracker index).then fun t => ?_
  cases q with
  | transition | emit => cases h
  | create | listenerCount | subscriberCount | view => exact along_pure _
  | register | unregister | setOkCallback | setErrorCallback | subscribe | unsubscribe =>
    refine Along.then (along_amends ?_ index) fun _ => along_pure _
    exact fun _ => ⟨⟨rfl, rfl, rfl, rfl⟩, id⟩
  | ask => exact along_askTracker _ _ _ _
  | dispose =>
    refine Along.ite (Along.then (along_amends ?_ index) fun _ =>
      (along_write _ _).then fun _ => along_pure _) (along_pure _)
    exact fun _ => ⟨⟨rfl, rfl, rfl, rfl⟩, fun _ => rfl⟩

theorem amends_detach (k : Nat) : (detach k).Along (AmendsAt i) := by
  refine along_detach_of (amends_modifyCollector k) fun _ => along_amends ?_
  exact fun _ => ⟨⟨rfl, rfl, rfl, rfl⟩, id⟩

theorem amends_attach (k j : Nat) : (attach k j).Along (AmendsAt i) := by
  refine along_attach_of (amends_detach k) (amends_modifyCollector k) (fun _ => along_amends ?_) j
  exact fun _ => ⟨⟨rfl, rfl, rfl, rfl⟩, id⟩

/-- A request that calls no observers leaves what a tracker remembers as it is. -/
theorem amends_perform {r : Request} (h : r.callsObservers = false) :
    (perform silent r).Along (AmendsAt i) := by
  refine fun s => alongAt_perform_of (fun name q _ => along_performRegistry (fun _ => along_pure ()) name q s)
    (fun name q hq => ?_) fun name q _ => ?_
  · subst hq
    refine alongAt_performTracker_of (fun _ _ => ?_) fun index _ => amends_performOnTracker h index s
    refine along_createTracker_of _ _ _ (fun _ _ _ _ _ _ _ ht _ _ _ t hs => ?_) s
    have hlt := (Array.getElem?_eq_some_iff.1 hs).1
    refine ⟨t, ?_, .refl t⟩
    rw [ht, Array.getElem?_push_lt hlt, ← hs, Array.getElem?_eq_getElem hlt]
  · exact alongAt_performCollector_of (fun _ _ _ ht _ _ _ t hs => ⟨t, ht ▸ hs, .refl t⟩)
      (fun _ m j _ _ => amends_attach m j) (fun m _ _ => amends_detach m)
      fun m _ _ => amends_modifyCollector m _

end Act

/-! ### The tasks of a transition -/

/-- Observers are called for a transition of the tracker. -/
def Caller.isTransitionOf (i : Nat) : Caller → Bool
  | .transition j => j = i
  | _ => false

/-- The task belongs to a transition of the tracker. -/
def Task.isOfTransition (i : Nat) : Task → Bool
  | .call caller _ | .listeners caller .. | .subscribers caller .. => caller.isTransitionOf i
  | .notices j .. | .endAnnouncement j | .steps j _ => j = i
  | _ => false

/-- The task ends an announcement of the tracker. -/
def Task.ends (i : Nat) : Task → Bool
  | .endAnnouncement j => j = i
  | _ => false

/-- The task makes no change to the tracker and tells nobody for a transition of it. It may write to the log.
-/
def Task.IsIdle (i : Nat) : Task → Prop
  | .steps j left => j = i → ∀ step ∈ left, ∃ m, step = .log m
  | t => t.isOfTransition i = false

namespace Task

variable {i : Nat} {s : Session} {task t : Task}

theorem isIdle_of_not_isOfTransition (h : t.isOfTransition i = false) : t.IsIdle i := by
  cases t with
  | steps j left => exact fun hj => absurd hj (of_decide_eq_false h)
  | _ => exact h

theorem isIdle_of_isFrame (h : t.isFrame = true) : t.IsIdle i := by
  cases t with
  | script | reply | answer => rfl
  | call | listeners | subscribers | notices | endAnnouncement | steps => cases h

/-- An idle task leaves idle ones. -/
theorem Begets.isIdle (h : task.Begets s t) (htask : task.IsIdle i) : t.IsIdle i := by
  cases h with
  | script => rfl
  | announcement | endAnnouncement =>
    refine decide_eq_false fun hj => ?_
    obtain ⟨m, hm⟩ := htask hj _ List.mem_cons_self
    cases hm
  | steps => exact fun hj step hstep => htask hj step (List.mem_cons_of_mem _ hstep)
  | callListener | listeners | callSubscriber | subscribers | noticeListeners | noticeTrace | noticeDelivery
  | notices => exact htask

theorem changer?_ne_of_isIdle (h : task.IsIdle i) : task.changer? ≠ some i := by
  intro hi
  rw [changer?.eq_def] at hi
  split at hi
  · obtain ⟨m, hm⟩ := h (Option.some.inj hi) _ List.mem_cons_self
    cases hm
  · cases hi

theorem marker?_ne_of_isIdle (h : task.IsIdle i) : task.marker? ≠ some i := by
  intro hi
  rw [marker?.eq_def] at hi
  split at hi
  · obtain ⟨m, hm⟩ := h (Option.some.inj hi) _ List.mem_cons_self
    cases hm
  · exact absurd (Option.some.inj hi) (of_decide_eq_false h)
  · cases hi

end Task

/-- A request leaves nothing to do for a transition of a tracker that has been disposed of. -/
theorem Request.Begets.isIdle {s : Session} {r : Request} {task : Task} (h : r.Begets s task) {i : Nat}
    {t : Tracker} (ht : s.trackers[i]? = some t) (hd : t.disposed = true) : task.IsIdle i := by
  cases h with
  | @transition name x index u hname hu =>
    rintro rfl
    obtain rfl := Option.some.inj (hu.symm.trans ht)
    rw [Tracker.plan, Tracker.unavailable?, if_pos hd]
    exact (Planning.Asks.refuse _ _).plan _
  | emit | notify => rfl

namespace Act

theorem bears_amends {i : Nat} {task : Task} (h : task.IsIdle i) : Bears (AmendsAt i) task where
  claim _ _ := by
    refine along_amends (fun t => ?_) _ _
    exact ⟨⟨rfl, rfl, rfl, rfl⟩, id⟩
  count k _ := amends_modifyCollector k _
  change _ hindex _ := along_amends_ne (by rintro rfl; exact Task.changer?_ne_of_isIdle h hindex) _
  mark _ hindex _ := along_amends_ne (by rintro rfl; exact Task.marker?_ne_of_isIdle h hindex) _

end Act

/-! ### Announcements that are under way -/

namespace Act

variable {i : Nat}

theorem bears_steady {task : Task} (h : task.marker? ≠ some i) : Bears (Steady i) task where
  claim {s index _ _ subscriptions} _ _ := by
    refine along_modifyTracker (R := Steady i) (f := fun t => { t with subscriptions }) ?_ index s
    exact fun _ => ⟨rfl, rfl, rfl, rfl⟩
  count k _ := along_modifyCollector k _
  change index _ c := @steady_carryOutStep i silent (fun _ => along_pure ()) index (.change c)
  mark _ hindex _ := along_modifyTracker_ne (by rintro rfl; exact h hindex) _

/-- A request that calls no observers announces nothing. -/
theorem steady_perform (r : Request) : (perform silent r).Along (Steady i) :=
  along_perform (fun _ => along_pure ()) (takes_steady fun _ => along_pure ()) r

end Act

/-- An announcement that begins is counted, too. -/
theorem Task.Begets.ends_eq_false {s : Session} {i : Nat} {task t : Task} (h : task.Begets s t)
    (hmarker : task.marker? ≠ some i) : t.ends i = false := by
  cases h with
  | endAnnouncement => exact decide_eq_false fun hj => hmarker (congrArg some hj)
  | _ => rfl

theorem Request.Begets.ends_eq_false {s : Session} {i : Nat} {r : Request} {t : Task} (h : r.Begets s t) :
    t.ends i = false := by
  cases h <;> rfl

theorem Task.ends_eq_false_of_isFrame {i : Nat} {t : Task} (h : t.isFrame = true) : t.ends i = false := by
  cases t with
  | endAnnouncement => cases h
  | _ => rfl

namespace Machine

variable {i : Nat} {m m' : Machine}

theorem countP_ends_append {new rest : List Task} (h : ∀ t ∈ new, t.ends i = false) :
    (new ++ rest).countP (Task.ends i) = rest.countP (Task.ends i) := by
  have hnone : new.countP (Task.ends i) = 0 :=
    List.countP_eq_zero.2 fun t ht hends => Bool.false_ne_true ((h t ht).symm.trans hends)
  rw [List.countP_append, hnone, Nat.zero_add]

/-- A step that neither begins nor ends an announcement of the tracker leaves them as they are. -/
theorem Next.announcing_same {r : Option Request} (hnext : Next r m m')
    (hmarker : ∀ task ∈ m.tasks.head?, task.marker? ≠ some i) :
    m'.session.announcing i = m.session.announcing i ∧
      m'.tasks.countP (Task.ends i) = m.tasks.tail.countP (Task.ends i) := by
  refine ⟨along_next (R := Steady i) hnext (fun task htask => Act.bears_steady (hmarker task htask))
    fun q _ _ => Act.steady_perform q, ?_⟩
  obtain ⟨new, htasks, hnew⟩ := hnext.tasks_eq
  rw [htasks]
  refine countP_ends_append fun t ht => ?_
  rcases hnew t ht with ⟨task, htask, hbegets⟩ | ⟨q, -, hbegets⟩ | hframe
  · exact hbegets.ends_eq_false (hmarker task htask)
  · exact hbegets.ends_eq_false
  · exact Task.ends_eq_false_of_isFrame hframe

theorem announcing_mark {s : Session} {t : Tracker} (ht : s.trackers[i]? = some t) (f : Nat → Nat) :
    (s.modifyTracker i fun t => { t with announcing := f t.announcing }).announcing i =
      f (s.announcing i) := by
  rw [Session.announcing, Act.getElem?_modifyTracker ht, Session.announcing, ht]
  rfl

theorem countP_endAnnouncement (rest : List Task) :
    (Task.endAnnouncement i :: rest).countP (Task.ends i) = rest.countP (Task.ends i) + 1 :=
  List.countP_cons_of_pos (decide_eq_true rfl)

/-- An announcement of the tracker ends. -/
theorem announcing_end {s : Session} {rest : List Task} {fault : Option Fault} {answers : List Session.Answer}
    (h : s.announcing i = (Task.endAnnouncement i :: rest).countP (Task.ends i)) :
    ((⟨s, .endAnnouncement i :: rest, fault, answers⟩ : Machine).proceed (.endAnnouncement i)
      rest).session.announcing i = rest.countP (Task.ends i) := by
  rw [countP_endAnnouncement] at h
  have hended : ((⟨s, .endAnnouncement i :: rest, fault, answers⟩ : Machine).proceed (.endAnnouncement i)
      rest).session = s.modifyTracker i fun t => { t with announcing := t.announcing - 1 } := by
    cases fault <;> rfl
  cases ht : s.trackers[i]? with
  | none =>
    rw [Session.announcing, ht] at h
    exact absurd h (Nat.succ_ne_zero _).symm
  | some t =>
    rw [hended, announcing_mark ht (· - 1), h]
    exact Nat.add_sub_cancel ..

/-- An announcement of the tracker begins, if the tracker is there. -/
theorem announcing_begin (s : Session) (ns : List Notice) (left : List Step) (rest : List Task)
    (fault : Option Fault) (answers : List Session.Answer) (h : s.announcing i = rest.countP (Task.ends i)) :
    let m := (⟨s, .steps i (.announce ns :: left) :: rest, fault, answers⟩ : Machine).proceed
      (.steps i (.announce ns :: left)) rest
    m.session.announcing i = m.tasks.countP (Task.ends i) := by
  cases fault with
  | some e => exact h
  | none =>
    rw [proceed_of_begin rfl (by rintro _ _ ⟨⟩)]
    cases ht : s.trackers[i]? with
    | none =>
      have hran : (Act.beginTask (depth rest) (.steps i (.announce ns :: left))).ran s =
          (.error (.unknownName (toString i)), s) := by
        rw [Act.beginTask, Act.beginStep, Act.ran_bind, Act.ran_bind, Act.ran_tracker_none ht]
        rfl
      rw [hran]
      exact h
    | some t =>
      have hran : (Act.beginTask (depth rest) (.steps i (.announce ns :: left))).ran s =
          (.ok [.notices i t ns, .endAnnouncement i, .steps i left],
            s.modifyTracker i fun t => { t with announcing := t.announcing + 1 }) := by
        rw [Act.beginTask, Act.beginStep, Act.ran_bind, Act.ran_bind, Act.ran_tracker ht]
        rfl
      rw [hran]
      refine (announcing_mark ht (· + 1)).trans ?_
      rw [h]
      exact (countP_endAnnouncement (.steps i left :: rest)).symm

/-- A tracker is announcing as many things as there are announcements to end. -/
theorem Next.announcing_eq {r : Option Request} (hnext : Next r m m')
    (h : m.session.announcing i = m.tasks.countP (Task.ends i)) :
    m'.session.announcing i = m'.tasks.countP (Task.ends i) := by
  obtain ⟨s, tasks, fault, answers⟩ := m
  cases tasks with
  | nil =>
    obtain ⟨hsession, htasks⟩ := hnext.announcing_same (i := i) (by rintro _ ⟨⟩)
    rw [hsession, htasks, h]
    rfl
  | cons task rest =>
    by_cases hmarker : task.marker? = some i
    · cases hnext with
      | request _ hidle => cases hidle
      | step hstep =>
        obtain rfl := Option.some.inj hstep
        rw [Task.marker?.eq_def] at hmarker
        split at hmarker
        · obtain rfl := Option.some.inj hmarker
          exact announcing_begin s _ _ rest fault answers h
        · obtain rfl := Option.some.inj hmarker
          rw [announcing_end h]
          cases fault <;> rfl
        · cases hmarker
    · obtain ⟨hsession, htasks⟩ := hnext.announcing_same (i := i) (by rintro _ ⟨⟩; exact hmarker)
      have hends : task.ends i = false := by
        cases task with
        | endAnnouncement j => exact decide_eq_false fun hj => hmarker (congrArg some hj)
        | _ => rfl
      rw [hsession, htasks, h]
      exact List.countP_cons_of_neg (by rw [hends]; exact Bool.false_ne_true)

theorem Reachable.announcing_eq (hm : m.Reachable) (i : Nat) :
    m.session.announcing i = m.tasks.countP (Task.ends i) := by
  obtain ⟨rs, hruns⟩ := hm
  induction hruns with
  | nil => rfl
  | snoc _ hnext ih => exact hnext.announcing_eq ih

/-- So a tracker that has not been disposed of takes transitions, except from those to whom it announces
something. -/
theorem Reachable.unavailable?_eq_none_iff {t : Tracker} (hm : m.Reachable)
    (ht : m.session.trackers[i]? = some t) (hd : t.disposed = false) :
    t.unavailable? = none ↔ .endAnnouncement i ∉ m.tasks := by
  have hcount : t.announcing = m.tasks.countP (Task.ends i) := by
    rw [← hm.announcing_eq i, Session.announcing, ht]
    rfl
  have hends : m.tasks.countP (Task.ends i) = 0 ↔ .endAnnouncement i ∉ m.tasks := by
    rw [List.countP_eq_zero]
    refine ⟨fun h hmem => h _ hmem (decide_eq_true rfl), fun h task htask hends => ?_⟩
    cases task with
    | endAnnouncement j => exact h (of_decide_eq_true hends ▸ htask)
    | _ => cases hends
  rw [← hends, ← hcount, Tracker.unavailable?, hd, if_neg Bool.false_ne_true, ite_eq_right_iff]
  exact ⟨fun h => by_contra fun hne => Option.some_ne_none _ (h hne), fun h hne => absurd h hne⟩

/-- The tracker has been disposed of, and nothing is left to do for a transition of it. -/
structure Rests (i : Nat) (t : Tracker) (m : Machine) : Prop where
  tracker : ∃ t', m.session.trackers[i]? = some t' ∧ t.Keeps t' ∧ t'.disposed = true
  idle : ∀ task ∈ m.tasks, task.IsIdle i

theorem Rests.next {t : Tracker} (h : m.Rests i t) {r : Option Request} (hnext : Next r m m') :
    m'.Rests i t := by
  obtain ⟨t', ht', hk, hd⟩ := h.tracker
  have hkept : AmendsAt i m.session m'.session :=
    along_next hnext (fun task htask => Act.bears_amends (h.idle task (List.mem_of_mem_head? htask)))
      fun q _ hcalls => Act.amends_perform hcalls
  obtain ⟨t'', ht'', hamends⟩ := hkept t' ht'
  refine ⟨⟨t'', ht'', hk.trans hamends.keeps, hamends.disposed hd⟩, fun task htask => ?_⟩
  rcases hnext.mem_tasks htask with htask | ⟨first, hfirst, hbegets⟩ | ⟨q, -, hbegets⟩ | hframe
  · exact h.idle task htask
  · exact hbegets.isIdle (h.idle first hfirst)
  · exact hbegets.isIdle ht' hd
  · exact Task.isIdle_of_isFrame hframe

/-- And so it stays. -/
theorem Rests.later {t : Tracker} (h : m.Rests i t) (hlater : m.Later m') : m'.Rests i t := by
  obtain ⟨rs, hruns⟩ := hlater
  induction hruns with
  | nil => exact h
  | snoc _ hnext ih => exact ih.next hnext

end Machine

/-! ### What becomes of a tracker that is disposed of -/

namespace Act

variable {i : Nat} {s : Session} {t : Tracker}

theorem staysDisposed_modifyTracker {f : Tracker → Tracker} (hf : ∀ t : Tracker, (f t).disposed = t.disposed)
    (j : Nat) : (modifyTracker j f).Along (StaysDisposed i) := by
  intro s t ht hd
  change ∃ t', (s.trackers.modify j f)[i]? = some t' ∧ _
  rw [Array.getElem?_modify, ht]
  split
  · exact ⟨f t, rfl, (hf t).trans hd⟩
  · exact ⟨t, rfl, hd⟩

theorem bears_staysDisposed (task : Task) : Bears (StaysDisposed i) task where
  claim {s index _ _ subscriptions} _ _ := by
    exact staysDisposed_modifyTracker (f := fun t => { t with subscriptions }) (fun _ => rfl) index s
  count k event s := (amends_modifyCollector (i := i) k _ s).staysDisposed
  change index _ c :=
    staysDisposed_modifyTracker (f := fun t => { t with core := c.apply t.core }) (fun _ => rfl) index
  mark index _ f :=
    staysDisposed_modifyTracker (f := fun t => { t with announcing := f t.announcing }) (fun _ => rfl) index

variable (respond : Respond)

/-- Whether a tracker has been disposed of before or not, it is disposed of. -/
theorem disposed_of_dispose (ht : s.trackers[i]? = some t) :
    ∃ t', ((performOnTracker respond i .dispose).ran s).2.trackers[i]? = some t' ∧ t'.disposed = true := by
  rw [trackers_of_dispose respond ht]
  split
  · next hd => exact ⟨t, ht, hd⟩
  · exact ⟨t.dispose, getElem?_modifyTracker ht Tracker.dispose, rfl⟩

/-- After that it refuses every transition, and this is all that it does. -/
theorem refused_of_disposed (hs : s.HasLog i) (ht : s.trackers[i]? = some t) (hd : t.disposed = true)
    (x : Transition) : ∃ s', (performOnTracker respond i (.transition x)).ran s =
      (.error (.refused ⟨x.name, .disposed⟩), s') ∧ s'.trackers = s.trackers := by
  have hplan : t.plan x = Planning.plan (Planning.refuse x.name .disposed) t.core := by
    rw [Tracker.plan, Tracker.unavailable?, if_pos hd]
  have hasks : Planning.Asks (Planning.refuse x.name .disposed : Planning Unit) := .refuse _ _
  obtain ⟨s', hran⟩ := ran_carryOut_asks respond hasks hs t.core
  have hkeeps :
      (carryOut respond i (Planning.plan (Planning.refuse x.name .disposed : Planning Unit) t.core)).Along
      fun s s' => s'.trackers = s.trackers := along_carryOut (hasks.plan t.core)
  have htrackers := hkeeps s
  rw [AlongAt, hran] at htrackers
  refine ⟨s', ?_, htrackers⟩
  rw [performOnTracker, ran_bind, ran_tracker ht, onward, ran_bind, hplan, hran]
  rfl

end Act

/-- The request is to dispose of the tracker of this name. -/
def Request.disposesOf (tracker : String) : Request → Bool
  | .tracker name .dispose => name = tracker
  | _ => false

theorem Request.eq_of_disposesOf {name : String} {r : Request} (h : r.disposesOf name = true) :
    r = .tracker name .dispose := by
  rw [Request.disposesOf.eq_def] at h
  split at h
  · rw [of_decide_eq_true h]
  · cases h

namespace Machine

variable {i : Nat} {m m' : Machine}

theorem Next.staysDisposed {r : Option Request} (hnext : Next r m m') :
    StaysDisposed i m.session m'.session :=
  along_next hnext (fun task _ => Act.bears_staysDisposed task) fun _ _ hcalls s =>
    (Act.amends_perform hcalls s).staysDisposed

theorem Later.staysDisposed (hlater : m.Later m') : StaysDisposed i m.session m'.session := by
  obtain ⟨rs, hruns⟩ := hlater
  induction hruns with
  | nil => exact Forgiving.chains.refl _
  | snoc _ hnext ih => exact Forgiving.chains.trans ih hnext.staysDisposed

end Machine

/-- The entries of a tracker have their turns for a transition of it or for an event that it is requested to
emit. Observers that are called for such an event are called with it. -/
def Task.IsAssigned : Task → Prop
  | .call (.emission _) c => ∃ id event, c = .trace id event
  | .listeners (.emission _) .. => False
  | .subscribers caller index .. => caller = .transition index ∨ caller = .emission index
  | _ => True

namespace Task

theorem Begets.isAssigned {s : Session} {task t : Task} (h : task.Begets s t) (htask : task.IsAssigned) :
    t.IsAssigned := by
  cases h with
  | @callListener caller | @listeners caller =>
    cases caller with
    | emission => cases htask
    | transition | registry => trivial
  | @callSubscriber caller _ event _ _ id =>
    cases caller with
    | emission => exact ⟨id, event, rfl⟩
    | transition | registry => trivial
  | subscribers => exact htask
  | noticeTrace => exact Or.inl rfl
  | _ => trivial

theorem isAssigned_of_isFrame {t : Task} (h : t.isFrame = true) : t.IsAssigned := by
  cases t with
  | script | reply | answer => trivial
  | call | listeners | subscribers | notices | endAnnouncement | steps => cases h

end Task

theorem Request.Begets.isAssigned {s : Session} {r : Request} {t : Task} (h : r.Begets s t) :
    t.IsAssigned := by
  cases h with
  | transition | notify => trivial
  | emit => exact Or.inr rfl

namespace Machine

theorem Reachable.isAssigned {m : Machine} (hm : m.Reachable) : ∀ t ∈ m.tasks, t.IsAssigned := by
  obtain ⟨rs, hruns⟩ := hm
  induction hruns with
  | nil => rintro _ ⟨⟩
  | snoc _ hnext ih =>
    intro t ht
    rcases hnext.mem_tasks ht with ht | ⟨task, htask, hbegets⟩ | ⟨q, -, hbegets⟩ | hframe
    · exact ih t ht
    · exact hbegets.isAssigned (ih task htask)
    · exact hbegets.isAssigned
    · exact Task.isAssigned_of_isFrame hframe

/-- A tracker has been disposed of, and its transitions that were under way have returned. Whatever is
requested later, it refuses every transition for that reason, remembers what it did, calls observers only for
an event that it is requested to emit, and is asked about the radio with the same answers. No subscribers, be
they observers or collectors, have a turn for a transition of it. Those of its own have one only for such an
event. -/
theorem Reachable.disposal_is_final {m₀ m₁ m : Machine} {name : String} {i : Nat} {t₀ : Tracker}
    (h₀ : m₀.Reachable) (hname : m₀.session.trackerNames.get? name = some i)
    (ht₀ : m₀.session.trackers[i]? = some t₀)
    (hdispose : Next (some (.tracker name .dispose)) m₀ m₁) (hlater : m₁.Later m)
    (hreturned : ∀ task ∈ m.tasks, task.isOfTransition i = false) :
    ∃ t, m.session.trackers[i]? = some t ∧ ∀ m' : Machine, m.Later m' →
      (∃ t', m'.session.trackers[i]? = some t' ∧ t'.core = t.core) ∧
      (∀ (respond : Act.Respond) (x : Transition), ∃ r s',
        (Act.performOnTracker respond i (.transition x)).ran m'.session = (.error (.refused r), s') ∧
          r.code = .preconditionViolation ∧ s'.trackers = m'.session.trackers) ∧
      (∀ caller c, .call caller c ∈ m'.tasks → caller ≠ .transition i ∧
        (caller = .emission i → ∃ id event, c = .trace id event)) ∧
      (∀ caller index event entries, .subscribers caller index event entries ∈ m'.tasks →
        caller ≠ .transition i ∧ (index = i → caller = .emission i)) ∧
      Session.AnswersAlike i m.session m'.session := by
  have hdisposed : ∃ t₁, m₁.session.trackers[i]? = some t₁ ∧ t₁.disposed = true := by
    obtain ⟨events, hm₁⟩ := hdispose.session_eq rfl
    rw [hm₁, Act.ran_performTracker (s := { m₀.session with events }) (fun _ _ => by rintro ⟨⟩) hname]
    exact Act.disposed_of_dispose (s := { m₀.session with events }) _ ht₀
  obtain ⟨t₁, ht₁, hd₁⟩ := hdisposed
  obtain ⟨t, ht, hd⟩ := hlater.staysDisposed t₁ ht₁ hd₁
  have hm : m.Reachable := (h₀.later (Later.next (.refl m₀) hdispose)).later hlater
  have hrests : m.Rests i t :=
    ⟨⟨t, ht, .refl t, hd⟩, fun task htask => Task.isIdle_of_not_isOfTransition (hreturned task htask)⟩
  refine ⟨t, ht, fun m' hm' => ?_⟩
  have hreachable : m'.Reachable := hm.later hm'
  obtain ⟨⟨t', ht', hkeeps, hd'⟩, hidle⟩ := hrests.later hm'
  have hlog' : m'.session.HasLog i := hreachable.orderly.hasLog ht'
  refine ⟨⟨t', ht', hkeeps.core⟩, fun respond x => ?_, fun caller c hcall => ⟨?_, ?_⟩,
    fun caller index event entries hturns => ?_, ?_⟩
  · obtain ⟨s', hran, htrackers⟩ := Act.refused_of_disposed respond hlog' ht' hd' x
    exact ⟨_, s', hran, rfl, htrackers⟩
  · rintro rfl
    exact of_decide_eq_false (hidle _ hcall) rfl
  · rintro rfl
    exact hreachable.isAssigned _ hcall
  · have hne : caller ≠ .transition i := by
      rintro rfl
      exact of_decide_eq_false (hidle _ hturns) rfl
    refine ⟨hne, ?_⟩
    rintro rfl
    exact (hreachable.isAssigned _ hturns).resolve_left hne
  · refine (Session.answersAlike_iff (hm.orderly.hasLog ht) hlog' ht ht' hkeeps.config.symm ?_).2 ⟨?_, ?_⟩ <;>
      rw [hkeeps.core]

/-- A listener hears of a transmission and disposes of the tracker. The transmission comes to its end. When a
listener and a subscriber are registered anew after that, they are not told of a transmission, because it is
refused. -/
theorem disposal_is_final_of_listener :
    ∃ m₀ m₁ m m' : Machine, Next (some (.tracker "radio" .dispose)) m₀ m₁ ∧
      (∃ task ∈ m₀.tasks, task.isOfTransition 0) ∧ m₁.Later m ∧ m.Later m' ∧
      (m'.session.trackers[0]?.map fun t => (t.listeners.size, t.subscriptions.entries.length)) =
        some (1, 1) ∧
      (∃ r s', (Act.performOnTracker Act.silent 0 (.transition (.transmit 40 30
          ⟨[(1, ⟨[⟨1, 100⟩], true⟩)]⟩ 20 ⟨"OfdmRate6Mbps", .long, 0, 20⟩ ⟨⟨0, 63⟩, none⟩))).ran m'.session =
        (.error (.refused r), s') ∧ r.code = .preconditionViolation) ∧
      Session.AnswersAlike 0 m.session m'.session := by
  let rs : List Request :=
    [.tracker "radio" (.create none {}), .tracker "radio" (.register "mac"),
      .script "mac" "onTxStart" [⟨.tracker "radio" .dispose, true⟩]]
  let transmit : Request := .tracker "radio" (.transition
    (.transmit 0 30 ⟨[(1, ⟨[⟨1, 100⟩], true⟩)]⟩ 20 ⟨"OfdmRate6Mbps", .long, 0, 20⟩ ⟨⟨0, 63⟩, none⟩))
  let anew : List Request :=
    [.tracker "radio" (.register "app"), .tracker "radio" (.subscribe .tx "log" false)]
  let begun := (⟨({} : Session).after rs, [], none, ({} : Session).run rs⟩ : Machine).begin transmit
  let m₀ := begun.advance 7
  have h₀ : m₀.Reachable :=
    (reachable_after rs).later
      ((Later.next (.refl _) (.request transmit rfl)).trans (steps_advance 7 begun).later)
  have hasked : m₀.asked? = some (.tracker "radio" .dispose) :=
    asked?_of_any (f := Request.disposesOf "radio") (by decide +kernel) fun _ => Request.eq_of_disposesOf
  have hworking : m₀.tasks.any (Task.isOfTransition 0) = true := by decide +kernel
  have hstep : m₀.step.isSome = true := by decide +kernel
  have ht₀ : m₀.session.trackers[0]?.isSome = true := by decide +kernel
  obtain ⟨m₁, hstep⟩ := Option.isSome_iff_exists.1 hstep
  obtain ⟨t₀, ht₀⟩ := Option.isSome_iff_exists.1 ht₀
  have hdispose : Next (some (.tracker "radio" .dispose)) m₀ m₁ := hasked ▸ .step hstep
  -- eight more steps lead to the end of the transmission
  let m := m₀.advance 9
  have hlater : m₁.Later m := by
    have hadvance : m = m₁.advance 8 := by
      dsimp only [m]
      rw [advance, hstep]
    exact hadvance ▸ (steps_advance 8 m₁).later
  have htasks : m.tasks = [] := List.isEmpty_iff.1 (by decide +kernel)
  have hfault : m.fault = none := Option.isNone_iff_eq_none.1 (by decide +kernel)
  let m' : Machine := ⟨m.session.after anew, [], none, m.answers ++ m.session.run anew⟩
  have hm' : m.Later m' := later_requests htasks hfault anew
  obtain ⟨t, -, hfinal⟩ := h₀.disposal_is_final (by decide +kernel) ht₀ hdispose hlater
    (fun task htask => by rw [htasks] at htask; cases htask)
  obtain ⟨-, hrefused, -, -, hanswers⟩ := hfinal m' hm'
  obtain ⟨r, s', hran, hcode, -⟩ := hrefused Act.silent (.transmit 40 30
    ⟨[(1, ⟨[⟨1, 100⟩], true⟩)]⟩ 20 ⟨"OfdmRate6Mbps", .long, 0, 20⟩ ⟨⟨0, 63⟩, none⟩)
  exact ⟨m₀, m₁, m, m', hdispose, List.any_eq_true.1 hworking, hlater, hm', by decide +kernel,
    ⟨r, s', hran, hcode⟩, hanswers⟩

end Machine

end RadioOccupancy
