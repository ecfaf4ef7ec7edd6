import RadioOccupancy.Proofs.Session.Machine
import RadioOccupancy.Proofs.Session.Orderly

/-!
What a step of the machine can do.

    steps [announce ns, …]   →   notices ns, end, steps […]
    notices [trace e, …]     →   subscribers of e, notices […]
    subscribers [x, y]       →   call x, subscribers [y]
    call x                   →   script of x

A task leaves others to do, and there are only so many ways in which it can (`Task.Begets`). So what is left
to do after a step was left to do before, or comes from the first task, or from a request that begins
(`Machine.Next.mem_tasks`). To the session it does what its first task does, which is one of four things
unless it is to write to a log (`Act.Bears`, `Machine.along_next`), or what a request does that calls no
observers.
-/

namespace RadioOccupancy

/-! ### What a step of the machine leaves to do -/

/-- A task may leave another to do when it is begun in the session. -/
inductive Task.Begets (s : Session) : Task → Task → Prop
  | script {caller : Caller} {c : ObserverCall} {script : Script} : Begets s (.call caller c) (.script script)
  | callListener {caller : Caller} {call : ListenerCall} {id : ObserverId} {rest : List ObserverId} :
      Begets s (.listeners caller call (id :: rest)) (.call caller (.listener id call))
  | listeners {caller : Caller} {call : ListenerCall} {id : ObserverId} {rest : List ObserverId} :
      Begets s (.listeners caller call (id :: rest)) (.listeners caller call rest)
  | callSubscriber {caller : Caller} {index : Nat} {event : TraceEvent} {e : Subscription}
      {rest : List Subscription} {id : ObserverId} :
      Begets s (.subscribers caller index event (e :: rest)) (.call caller (.trace id event))
  | subscribers {caller : Caller} {index : Nat} {event : TraceEvent} {e : Subscription}
      {rest : List Subscription} :
      Begets s (.subscribers caller index event (e :: rest)) (.subscribers caller index event rest)
  | noticeListeners {index : Nat} {before t : Tracker} {call : ListenerCall} {ns : List Notice}
      (ht : s.trackers[index]? = some t) :
      Begets s (.notices index before (.listeners call :: ns))
        (.listeners (.transition index) call t.listeners.members)
  | noticeTrace {index : Nat} {before t : Tracker} {event : TraceEvent} {ns : List Notice}
      (ht : s.trackers[index]? = some t) :
      Begets s (.notices index before (.trace event :: ns))
        (.subscribers (.transition index) index event (t.subscriptions.ofKind event.kind))
  | noticeDelivery {index : Nat} {before : Tracker} {delivery : Delivery} {ns : List Notice}
      {id : ObserverId} :
      Begets s (.notices index before (.deliver delivery :: ns))
        (.call (.transition index) (.delivery id delivery))
  | notices {index : Nat} {before : Tracker} {n : Notice} {ns : List Notice} :
      Begets s (.notices index before (n :: ns)) (.notices index before ns)
  | announcement {index : Nat} {before : Tracker} {ns : List Notice} {rest : List Step} :
      Begets s (.steps index (.announce ns :: rest)) (.notices index before ns)
  | endAnnouncement {index : Nat} {ns : List Notice} {rest : List Step} :
      Begets s (.steps index (.announce ns :: rest)) (.endAnnouncement index)
  | steps {index : Nat} {step : Step} {rest : List Step} :
      Begets s (.steps index (step :: rest)) (.steps index rest)

/-- A request that begins in the session leaves a task to do. -/
inductive Request.Begets (s : Session) : Request → Task → Prop
  | transition {name : String} {x : Transition} {index : Nat} {t : Tracker}
      (hname : s.trackerNames.get? name = some index) (ht : s.trackers[index]? = some t) :
      Begets s (.tracker name (.transition x)) (.steps index (t.plan x).steps)
  | emit {name : String} {event : TraceEvent} {index : Nat} {t : Tracker}
      (hname : s.trackerNames.get? name = some index) (ht : s.trackers[index]? = some t) :
      Begets s (.tracker name (.emit event))
        (.subscribers (.emission index) index event (t.subscriptions.ofKind event.kind))
  | notify {name : String} {call : ListenerCall} {set : ListenerSet}
      (hset : s.registries.get? name = some set) :
      Begets s (.registry name (.notify call)) (.listeners .registry call set.members)

/-- What was noted of calls makes no difference to it. -/
theorem Request.Begets.of_events {s : Session} {events : Array Event} {r : Request} {t : Task}
    (h : r.Begets { s with events } t) : r.Begets s t := by
  cases h with
  | transition hname hs => exact .transition hname hs
  | emit hname hs => exact .emit hname hs
  | notify hset => exact .notify hset

/-- The task waits for something to come to an end, or is what an observer does. -/
def Task.isFrame : Task → Bool
  | .script _ | .reply .. | .answer .. => true
  | _ => false

theorem forall_mem_pair {t u : Task} {P : Task → Prop} (ht : P t) (hu : P u) : ∀ v ∈ [t, u], P v := by
  rintro v (_ | ⟨_, _ | ⟨_, ⟨⟩⟩⟩)
  · exact ht
  · exact hu

theorem forall_mem_one {t : Task} {P : Task → Prop} (ht : P t) : ∀ v ∈ [t], P v := by
  rintro v (_ | ⟨_, ⟨⟩⟩)
  exact ht

namespace Act

/-- What an action answers, if it comes to its end. -/
def Yields {α : Type} (P : α → Prop) (s : Session) (x : Act α) : Prop :=
  ∀ a s', x.ran s = (.ok a, s') → P a

section Yields

variable {α β : Type} {P : α → Prop} {s : Session}

theorem yields_pure {a : α} (h : P a) : Yields P s (pure a) := by
  rintro _ _ ⟨⟩
  exact h

theorem yields_bind {x : Act β} {f : β → Act α}
    (h : ∀ b s', x.ran s = (.ok b, s') → Yields P s' (f b)) : Yields P s (x >>= f) := by
  intro a s' hran
  obtain ⟨b, s₁, hx, hf⟩ := ok_of_bind hran
  exact h b s₁ hx a s' hf

/-- It is looked at a tracker first. -/
theorem yields_tracker_bind {index : Nat} {f : Tracker → Act α}
    (h : ∀ t, s.trackers[index]? = some t → Yields P s (f t)) : Yields P s (tracker index >>= f) := by
  refine yields_bind fun t s' ht => ?_
  obtain ⟨hs, hsame⟩ := getElem?_of_ran_tracker (congrArg Prod.fst ht)
  rw [ht] at hsame
  subst hsame
  exact h t hs

/-- A thing is looked up under its name first. -/
theorem yields_named_bind {γ : Type} {entries : Named γ} {name : String} {f : γ → Act α}
    (h : ∀ b, entries.get? name = some b → Yields P s (f b)) : Yields P s (named entries name >>= f) := by
  refine yields_bind fun b s' hb => ?_
  obtain ⟨hget, hsame⟩ := get?_of_ran_named (congrArg Prod.fst hb)
  rw [hb] at hsame
  subst hsame
  exact h b hget

end Yields

theorem begets_of_beginNotice (index : Nat) (before : Tracker) (n : Notice) (rest : List Notice)
    (s : Session) : Yields (fun ts => ∀ t ∈ ts, (Task.notices index before (n :: rest)).Begets s t) s
      (beginNotice index before n) := by
  cases n with
  | listeners call => exact yields_tracker_bind fun t ht => yields_pure (forall_mem_one (.noticeListeners ht))
  | trace event => exact yields_tracker_bind fun t ht => yields_pure (forall_mem_one (.noticeTrace ht))
  | deliver delivery =>
    rw [beginNotice]
    cases before.callbackFor delivery with
    | some id => exact yields_pure (forall_mem_one .noticeDelivery)
    | none => exact yields_pure (by rintro _ ⟨⟩)

theorem begets_of_beginStep (index : Nat) (step : Step) (rest : List Step) (s : Session) :
    Yields (fun ts => ∀ t ∈ ts, (Task.steps index (step :: rest)).Begets s t) s (beginStep index step) := by
  cases step with
  | change c => exact yields_bind fun _ _ _ => yields_pure (by rintro _ ⟨⟩)
  | announce ns =>
    exact yields_bind fun _ _ _ => yields_bind fun _ _ _ =>
      yields_pure (forall_mem_pair .announcement .endAnnouncement)
  | log m =>
    exact yields_bind fun _ _ _ => yields_bind fun _ _ _ => yields_pure (by rintro _ ⟨⟩)

/-- What is to be done when a task has begun comes of it. -/
theorem begets_of_beginTask (depth : Nat) (task : Task) (s : Session) :
    Yields (fun ts => ∀ t ∈ ts, task.Begets s t) s (beginTask depth task) := by
  have hnil : ∀ t ∈ ([] : List Task), task.Begets s t := by rintro _ ⟨⟩
  cases task with
  | call caller c =>
    cases depth with
    | zero => rintro _ _ ⟨⟩
    | succ depth =>
      exact yields_bind fun _ _ _ => yields_bind fun _ _ _ => yields_pure (forall_mem_one .script)
  | listeners caller call members =>
    cases members with
    | nil => exact yields_pure hnil
    | cons id rest => exact yields_pure (forall_mem_pair .callListener .listeners)
  | subscribers caller index event entries =>
    cases entries with
    | nil => exact yields_pure hnil
    | cons e rest =>
      refine yields_tracker_bind fun t ht => ?_
      cases t.subscriptions.claim e with
      | none => exact yields_pure (forall_mem_one .subscribers)
      | some subscriptions =>
        refine yields_bind fun _ _ _ => ?_
        cases e.subscriber with
        | observer id => exact yields_pure (forall_mem_pair .callSubscriber .subscribers)
        | collector k => exact yields_bind fun _ _ _ => yields_pure (forall_mem_one .subscribers)
  | notices index before ns =>
    cases ns with
    | nil => exact yields_pure hnil
    | cons n rest =>
      refine yields_bind fun ts s' hts => yields_pure ?_
      exact List.forall_mem_append.2 ⟨begets_of_beginNotice index before n rest s ts s' hts,
        forall_mem_one .notices⟩
  | steps index steps =>
    cases steps with
    | nil => exact yields_pure hnil
    | cons step rest =>
      refine yields_bind fun ts s' hts => yields_pure ?_
      exact List.forall_mem_append.2 ⟨begets_of_beginStep index step rest s ts s' hts, forall_mem_one .steps⟩
  | endAnnouncement | script | reply | answer => exact yields_pure hnil

theorem begets_of_opening (r : Request) (s : Session) :
    Yields (fun opened => ∀ t ∈ opened.1, r.Begets s t) s (opening r) := by
  cases hcalls : r.callsObservers with
  | false =>
    rw [opening_eq_silent hcalls]
    exact yields_bind fun _ _ _ => yields_pure (by rintro _ ⟨⟩)
  | true =>
    have hget {α : Type} {P : α → Prop} {f : Session → Act α} (h : Yields P s (f s)) :
        Yields P s (get >>= f) := by
      refine yields_bind ?_
      rintro _ _ ⟨⟩
      exact h
    cases r with
    | tracker name q =>
      cases q with
      | transition x =>
        exact hget <| yields_named_bind fun index hname => yields_tracker_bind fun t ht =>
          yields_pure (forall_mem_one (.transition hname ht))
      | emit event =>
        exact hget <| yields_named_bind fun index hname => yields_tracker_bind fun t ht =>
          yields_pure (forall_mem_one (.emit hname ht))
      | _ => cases hcalls
    | registry name q =>
      cases q with
      | notify call =>
        exact hget <| yields_named_bind fun set hset => yields_pure (forall_mem_one (.notify hset))
      | _ => cases hcalls
    | _ => cases hcalls

end Act

namespace Machine

/-- A request that begins leaves tasks to do before the others, and then it is answered. -/
theorem tasks_ask (m : Machine) (r : Request) (answer : Except Fault Value → Task) (rest : List Task)
    (hframe : ∀ result, (answer result).isFrame = true) :
    ∃ new, (m.ask r answer rest).tasks = new ++ rest ∧
      ∀ t ∈ new, r.Begets m.session t ∨ t.isFrame = true := by
  have hbegets := Act.begets_of_opening r m.session
  rw [ask]
  rcases hran : (Act.opening r).ran m.session with ⟨e | ⟨work, result⟩, s⟩
  · exact ⟨[answer (.error e)], rfl, forall_mem_one (.inr (hframe _))⟩
  · refine ⟨work ++ [answer result], (List.append_cons ..), List.forall_mem_append.2 ⟨?_, ?_⟩⟩
    · exact fun t ht => .inl (hbegets _ _ hran t ht)
    · exact forall_mem_one (.inr (hframe _))

/-- The first task is begun, and others are left in its place. An observer begins with its next request. -/
theorem tasks_proceed (s : Session) (task : Task) (rest : List Task) (fault : Option Fault)
    (answers : List Session.Answer) :
    ∃ new, ((⟨s, task :: rest, fault, answers⟩ : Machine).proceed task rest).tasks = new ++ rest ∧
      ∀ t ∈ new, task.Begets s t ∨
        (∃ q ∈ (⟨s, task :: rest, fault, answers⟩ : Machine).asked?, q.Begets s t) ∨ t.isFrame = true := by
  cases hcatches : task.catches with
  | true =>
    cases task with
    | endAnnouncement | reply | answer => cases fault <;> exact ⟨[], rfl, by rintro _ ⟨⟩⟩
    | call | listeners | subscribers | notices | steps | script => cases hcatches
  | false =>
    cases fault with
    | some e =>
      rw [proceed_of_fault hcatches]
      exact ⟨[], rfl, by rintro _ ⟨⟩⟩
    | none =>
      by_cases hscript : ∃ step script, task = .script (step :: script)
      · obtain ⟨step, script, rfl⟩ := hscript
        obtain ⟨new, htasks, hnew⟩ := tasks_ask ⟨s, .script (step :: script) :: rest, none, answers⟩
          step.request (.reply step) (.script script :: rest) fun _ => rfl
        refine ⟨new ++ [.script script], htasks.trans (List.append_cons ..),
          List.forall_mem_append.2 ⟨fun t ht => ?_, forall_mem_one (.inr (.inr rfl))⟩⟩
        rcases hnew t ht with hbegets | hframe
        · exact .inr (.inl ⟨step.request, rfl, hbegets⟩)
        · exact .inr (.inr hframe)
      · rw [proceed_of_begin hcatches fun step script h => hscript ⟨step, script, h⟩]
        have hbegets := Act.begets_of_beginTask (depth rest) task s
        rcases hran : (Act.beginTask (depth rest) task).ran s with ⟨e | more, s'⟩
        · exact ⟨[], rfl, by rintro _ ⟨⟩⟩
        · exact ⟨more, rfl, fun t ht => .inl (hbegets _ _ hran t ht)⟩

/-- A step takes the first task away and leaves others in its place, which the task or a request that begins
leaves. -/
theorem Next.tasks_eq {r : Option Request} {m m' : Machine} (hnext : Next r m m') :
    ∃ new, m'.tasks = new ++ m.tasks.tail ∧
      ∀ t ∈ new, (∃ task ∈ m.tasks.head?, task.Begets m.session t) ∨ (∃ q ∈ r, q.Begets m.session t) ∨
        t.isFrame = true := by
  cases hnext with
  | request q hidle =>
    obtain ⟨new, htasks, hnew⟩ :=
      tasks_ask { m with session := { m.session with events := #[] } } q (.answer q) [] fun _ => rfl
    refine ⟨new, ?_, fun t ht => .inr ?_⟩
    · rw [hidle]
      exact htasks
    · exact (hnew t ht).imp_left fun hbegets => ⟨q, rfl, hbegets.of_events⟩
  | step hstep =>
    obtain ⟨s, tasks, fault, answers⟩ := m
    cases tasks with
    | nil => cases hstep
    | cons task rest =>
      obtain rfl := Option.some.inj hstep
      obtain ⟨new, htasks, hnew⟩ := tasks_proceed s task rest fault answers
      exact ⟨new, htasks, fun t ht => (hnew t ht).imp_left fun hbegets => ⟨task, rfl, hbegets⟩⟩

/-- So what is left to do after a step was left before, or the first task or a request that begins leaves it.
-/
theorem Next.mem_tasks {r : Option Request} {m m' : Machine} (hnext : Next r m m') {t : Task}
    (h : t ∈ m'.tasks) :
    t ∈ m.tasks ∨ (∃ task ∈ m.tasks, task.Begets m.session t) ∨ (∃ q ∈ r, q.Begets m.session t) ∨
      t.isFrame = true := by
  obtain ⟨new, htasks, hnew⟩ := hnext.tasks_eq
  rw [htasks] at h
  rcases List.mem_append.1 h with h | h
  · rcases hnew t h with ⟨task, htask, hbegets⟩ | hrest
    · exact .inr (.inl ⟨task, List.mem_of_mem_head? htask, hbegets⟩)
    · exact .inr (.inr hrest)
  · exact .inl (List.mem_of_mem_tail h)

end Machine

/-! ### What a step of the machine does to the session -/

/-- The tracker whose memory the task changes when it is begun. -/
def Task.changer? : Task → Option Nat
  | .steps index (.change _ :: _) => some index
  | _ => none

/-- The tracker of which the task counts an announcement when it is begun. -/
def Task.marker? : Task → Option Nat
  | .steps index (.announce _ :: _) | .endAnnouncement index => some index
  | _ => none

namespace Act

/-- The relation holds where a subscriber has its turn, and across what the task notes about trackers. -/
structure Bears (R : Session → Session → Prop) (task : Task) : Prop where
  claim : ∀ {s : Session} {index : Nat} {t : Tracker} {e : Subscription} {subscriptions : Subscriptions},
    s.trackers[index]? = some t → t.subscriptions.claim e = some subscriptions →
      R s (s.modifyTracker index fun t => { t with subscriptions })
  count : ∀ k event, (modifyCollector k fun c => { c with totals := c.totals.add event }).Along R
  change : ∀ index, task.changer? = some index → ∀ c : Change,
    (modifyTracker index fun t => { t with core := c.apply t.core }).Along R
  mark : ∀ index, task.marker? = some index → ∀ f : Nat → Nat,
    (modifyTracker index fun t => { t with announcing := f t.announcing }).Along R

section Along

variable {R : Session → Session → Prop} [Forgiving R] {task : Task}

theorem along_beginNotice (index : Nat) (before : Tracker) (n : Notice) :
    (beginNotice index before n).Along R := by
  cases n with
  | listeners | trace => exact (along_tracker index).then fun _ => along_pure _
  | deliver delivery =>
    rw [beginNotice]
    split
    · exact along_pure _
    · exact along_pure _

theorem along_beginStep {index : Nat} {step : Step} {rest : List Step}
    (h : Bears R (.steps index (step :: rest))) : (beginStep index step).Along R := by
  cases step with
  | change c => exact (h.change index rfl c).then fun _ => along_pure _
  | announce ns =>
    exact (along_tracker index).then fun t => (h.mark index rfl (· + 1)).then fun _ => along_pure _
  | log m => exact (along_tracker index).then fun _ => (along_write _ _).then fun _ => along_pure _

theorem along_beginTask (h : Bears R task) (depth : Nat) : (beginTask depth task).Along R := by
  cases task with
  | call caller c =>
    cases depth with
    | zero => exact along_throw _
    | succ depth => exact (along_see _).then fun _ => along_get.then fun _ => along_pure _
  | listeners caller call members => cases members <;> exact along_pure _
  | subscribers caller index event entries =>
    cases entries with
    | nil => exact along_pure _
    | cons e rest =>
      intro s
      refine (along_tracker index s).then fun t ht => ?_
      obtain ⟨ht, hsame⟩ := getElem?_of_ran_tracker ht
      rw [hsame]
      cases hclaim : t.subscriptions.claim e with
      | none => exact along_pure _ s
      | some subscriptions =>
        refine AlongAt.then (h.claim ht hclaim) fun _ _ => ?_
        cases e.subscriber with
        | observer id => exact along_pure _ _
        | collector k => exact (h.count k event).then (fun _ => along_pure _) _
  | notices index before ns =>
    cases ns with
    | nil => exact along_pure _
    | cons n rest => exact (along_beginNotice index before n).then fun _ => along_pure _
  | steps index steps =>
    cases steps with
    | nil => exact along_pure _
    | cons step rest =>
      exact (along_beginStep h).then fun _ => along_pure _
  | endAnnouncement | script | reply | answer => exact along_pure _

theorem along_opening {r : Request} (h : r.callsObservers = false → (perform silent r).Along R) :
    (opening r).Along R := by
  cases hcalls : r.callsObservers with
  | false =>
    rw [opening_eq_silent hcalls]
    exact (h hcalls).then fun _ => along_pure _
  | true =>
    cases r with
    | tracker name q =>
      cases q with
      | transition | emit =>
        exact along_get.then fun _ => (along_named _ _).then fun _ => (along_tracker _).then fun _ =>
          along_pure _
      | _ => cases hcalls
    | registry name q =>
      cases q with
      | notify => exact along_get.then fun _ => (along_named _ _).then fun _ => along_pure _
      | _ => cases hcalls
    | _ => cases hcalls

end Along

end Act

namespace Machine

variable {R : Session → Session → Prop} [Forgiving R]

theorem along_ask (m : Machine) {r : Request}
    (h : r.callsObservers = false → (Act.perform Act.silent r).Along R)
    (answer : Except Fault Value → Task) (rest : List Task) : R m.session (m.ask r answer rest).session := by
  have hopening := Act.along_opening h m.session
  rw [Act.AlongAt] at hopening
  rw [ask]
  rcases hran : (Act.opening r).ran m.session with ⟨e | ⟨work, result⟩, s⟩ <;> rw [hran] at hopening <;>
    exact hopening

/-- What holds across the first part of a task holds across a step of the machine. -/
theorem along_proceed {m : Machine} {task : Task} (hbears : Act.Bears R task) (rest : List Task)
    (hrequest : ∀ step script, task = .script (step :: script) → m.fault = none →
      step.request.callsObservers = false → (Act.perform Act.silent step.request).Along R) :
    R m.session (m.proceed task rest).session := by
  obtain ⟨s, tasks, fault, answers⟩ := m
  have hsame : R s s := Forgiving.chains.refl _
  cases hcatches : task.catches with
  | true =>
    cases task with
    | endAnnouncement index =>
      have hmark := hbears.mark index rfl (· - 1) s
      cases fault <;> exact hmark
    | reply step result => exact Forgiving.of_alike rfl rfl rfl (Nat.le_refl _)
    | answer r result => exact hsame
    | call | listeners | subscribers | notices | steps | script => cases hcatches
  | false =>
    cases fault with
    | some e =>
      rw [proceed_of_fault hcatches]
      exact hsame
    | none =>
      by_cases hscript : ∃ step script, task = .script (step :: script)
      · obtain ⟨step, script, rfl⟩ := hscript
        exact along_ask _ (hrequest step script rfl rfl) _ _
      · have hbegin := Act.along_beginTask hbears (depth rest) s
        rw [proceed_of_begin hcatches fun step script h => hscript ⟨step, script, h⟩]
        rw [Act.AlongAt] at hbegin
        split <;> next hran => rw [hran] at hbegin; exact hbegin

/-- What holds across the first task, and across the request that begins, holds across a step of the machine.
-/
theorem along_next {r : Option Request} {m m' : Machine} (hnext : Next r m m')
    (hbears : ∀ task ∈ m.tasks.head?, Act.Bears R task)
    (hrequest : ∀ q ∈ r, q.callsObservers = false → (Act.perform Act.silent q).Along R) :
    R m.session m'.session := by
  cases hnext with
  | request q hidle =>
    have hevents : R m.session { m.session with events := #[] } :=
      Forgiving.of_alike rfl rfl rfl (Nat.le_refl _)
    exact Forgiving.chains.trans hevents
      (along_ask { m with session := { m.session with events := #[] } } (hrequest q rfl) _ _)
  | step hstep =>
    obtain ⟨s, tasks, fault, answers⟩ := m
    cases tasks with
    | nil => cases hstep
    | cons task rest =>
      obtain rfl := Option.some.inj hstep
      refine along_proceed (hbears task rfl) rest fun step script htask hfault => ?_
      subst htask
      obtain rfl : fault = none := hfault
      exact hrequest step.request rfl

/-- A request that calls no observers is carried out in one step. -/
theorem Next.session_eq {r : Request} {m m' : Machine} (hnext : Next (some r) m m')
    (hcalls : r.callsObservers = false) :
    ∃ events, m'.session = ((Act.perform Act.silent r).ran { m.session with events }).2 := by
  have hask (m : Machine) (answer : Except Fault Value → Task) (rest : List Task) :
      (m.ask r answer rest).session = ((Act.perform Act.silent r).ran m.session).2 := by
    rw [ask, Act.opening_eq_silent hcalls, Act.ran_bind]
    rcases (Act.perform Act.silent r).ran m.session with ⟨e | value, s⟩ <;> rfl
  generalize hlabel : some r = label at hnext
  cases hnext with
  | request q hidle =>
    obtain rfl := Option.some.inj hlabel
    exact ⟨#[], hask _ _ _⟩
  | step hstep =>
    obtain ⟨first, script, rest, htasks, hfault, rfl⟩ := asked?_eq_some hlabel.symm
    obtain ⟨s, tasks, fault, answers⟩ := m
    obtain rfl : tasks = _ := htasks
    obtain rfl : fault = none := hfault
    obtain rfl := Option.some.inj hstep
    exact ⟨s.events, hask _ _ _⟩

end Machine

/-! ### Sessions stay in order -/

theorem Act.bears_keepsOrder (task : Task) : Bears KeepsOrder task where
  claim := keepsOrder_claim
  count _ _ := keepsOrder_modifyCollector _ fun _ => rfl
  change index _ c := by
    refine keepsOrder_note ?_ index
    exact fun _ => ⟨rfl, rfl⟩
  mark index _ f := by
    refine keepsOrder_note ?_ index
    exact fun _ => ⟨rfl, rfl⟩

namespace Machine

theorem Next.orderly {r : Option Request} {m m' : Machine} (hnext : Next r m m') (h : m.session.Orderly) :
    m'.session.Orderly := by
  have hkept : KeepsOrder m.session m'.session :=
    along_next hnext (fun task _ => Act.bears_keepsOrder task) fun q _ _ =>
      Act.keepsOrder_perform (fun _ => Act.along_pure ()) q
  exact hkept h

theorem Reachable.orderly {m : Machine} (hm : m.Reachable) : m.session.Orderly := by
  obtain ⟨rs, hruns⟩ := hm
  induction hruns with
  | nil => exact .empty
  | snoc _ hnext ih => exact hnext.orderly ih

end Machine

end RadioOccupancy
