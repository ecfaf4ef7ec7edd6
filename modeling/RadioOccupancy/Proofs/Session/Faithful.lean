import RadioOccupancy.Proofs.Session.Machine

/-!
Requests that are taken apart come to the same.

    request from outside                          step
    ------------------------------------------    -----------------------------
    begin, next, next, …, nothing left to do      the same session and answer

Tasks do what an action does if the machine gets from them to the end of the action, with the fault that the
action fails with (`Act.Does`). This is shown of each task, by induction on what it holds, and of what
observers request by induction on how deeply calls may be nested. So from whatever state the machine can get
into, it goes on to a session that requests lead to, and has answered them as the session does
(`Machine.Reachable.finishes`).
-/

namespace RadioOccupancy

/-- The machine goes on by itself. -/
abbrev Machine.Steps : Machine → Machine → Prop :=
  Relation.ReflTransGen fun m m' => m.step = some m'

namespace Machine

theorem depth_append {ts : List Task} (h : ∀ t ∈ ts, t.isPlain = true) (rest : List Task) :
    depth (ts ++ rest) = depth rest := by
  have hnone : ts.countP Task.isScript = 0 := by
    refine List.countP_eq_zero.2 fun t ht hscript => ?_
    have := h t ht
    simp [Task.isPlain, hscript] at this
  rw [depth, depth, List.countP_append, hnone, Nat.zero_add]

theorem depth_script (script : Script) (rest : List Task) :
    depth (.script script :: rest) = depth rest - 1 := by
  have hone : (Task.script script :: rest).countP Task.isScript = rest.countP Task.isScript + 1 :=
    List.countP_cons_of_pos rfl
  rw [depth, depth, hone, Nat.sub_add_eq]

theorem depth_of_not_isScript {t : Task} (h : t.isScript = false) (rest : List Task) :
    depth (t :: rest) = depth rest := by
  rw [depth, depth, List.countP_cons_of_neg (by rw [h]; exact Bool.false_ne_true)]

/-- A request of an observer is answered, and the observer fails with it if it is to. -/
theorem step_reply (s : Session) (step : Scripted Request) (result : Except Fault Value) (rest : List Task)
    (fault : Option Fault) (answers : List Session.Answer) :
    let ended := (⟨s, rest, fault, answers⟩ : Machine).outcome result
    (⟨s, .reply step result :: rest, fault, answers⟩ : Machine).step =
      some ⟨s.see (.nested step.request.name (s.replyTo step.request ended)), rest,
        if step.rethrow then fault? ended else none, answers⟩ := by
  cases fault <;> rfl

/-- A request from outside is answered, and nothing fails any more. -/
theorem step_answer (s : Session) (r : Request) (result : Except Fault Value) (rest : List Task)
    (fault : Option Fault) (answers : List Session.Answer) :
    let ended := (⟨s, rest, fault, answers⟩ : Machine).outcome result
    (⟨s, .answer r result :: rest, fault, answers⟩ : Machine).step =
      some ⟨s, rest, none, answers ++ [⟨s.replyTo r ended, s.events⟩]⟩ := by
  cases fault <;> rfl

/-- A fault drops plain tasks. -/
theorem steps_fault (s : Session) (e : Fault) (answers : List Session.Answer) (rest : List Task) :
    ∀ ts : List Task, (∀ t ∈ ts, t.isPlain = true) →
      Steps ⟨s, ts ++ rest, some e, answers⟩ ⟨s, rest, some e, answers⟩
  | [], _ => .refl
  | t :: ts, h => by
    have hplain := h t List.mem_cons_self
    have hstep := congrArg some
      (proceed_of_fault (Task.catches_of_isPlain hplain) s (t :: ts ++ rest) (ts ++ rest) e answers)
    exact .head hstep (steps_fault s e answers rest ts fun t ht => h t (List.mem_cons_of_mem _ ht))

end Machine

namespace Act

open Machine

/-- Tasks do what the action does, when so many calls may still be nested. -/
def Does (depth : Nat) (ts : List Task) (x : Act Unit) : Prop :=
  ∀ (s : Session) (rest : List Task) (answers : List Session.Answer), Machine.depth rest = depth →
    Steps ⟨s, ts ++ rest, none, answers⟩ ⟨(x.ran s).2, rest, fault? (x.ran s).1, answers⟩

/-- A task that begins like this does what the action does. -/
def Begins (depth : Nat) (b : Act (List Task)) (x : Act Unit) : Prop :=
  ∀ s, (∃ e s', b.ran s = (.error e, s') ∧ x.ran s = (.error e, s')) ∨
    ∃ ts s' y, b.ran s = (.ok ts, s') ∧ Does depth ts y ∧ x.ran s = y.ran s'

variable {depth : Nat}

theorem does_nil : Does depth [] (pure ()) :=
  fun _ _ _ _ => .refl

/-- One after the other. -/
theorem Does.append {ts us : List Task} {x y : Act Unit} (hts : Does depth ts x) (hus : Does depth us y)
    (hplain : ∀ u ∈ us, u.isPlain = true) : Does depth (ts ++ us) (x >>= fun _ => y) := by
  intro s rest answers hdepth
  have hfirst := hts s (us ++ rest) answers ((depth_append hplain rest).trans hdepth)
  rw [← List.append_assoc] at hfirst
  rw [ran_bind]
  rcases hx : x.ran s with ⟨e | ⟨⟩, s'⟩ <;> rw [hx] at hfirst
  · exact hfirst.trans (steps_fault s' e answers rest us hplain)
  · exact hfirst.trans (hus s' rest answers hdepth)

theorem begins_pure {ts : List Task} {x : Act Unit} (h : Does depth ts x) : Begins depth (pure ts) x :=
  fun s => .inr ⟨ts, s, x, rfl, h, rfl⟩

/-- Both begin alike. -/
theorem begins_bind {α : Type} (z : Act α) {b : α → Act (List Task)} {x : α → Act Unit}
    (h : ∀ a, Begins depth (b a) (x a)) : Begins depth (z >>= b) (z >>= x) := by
  intro s
  rw [ran_bind, ran_bind]
  rcases z.ran s with ⟨e | a, s'⟩
  · exact .inl ⟨e, s', rfl, rfl⟩
  · exact h a s'

/-- Something follows. -/
theorem Begins.append {b : Act (List Task)} {us : List Task} {x y : Act Unit} (hb : Begins depth b x)
    (hus : Does depth us y) (hplain : ∀ u ∈ us, u.isPlain = true) :
    Begins depth (b >>= fun ts => pure (ts ++ us)) (x >>= fun _ => y) := by
  intro s
  rw [ran_bind, ran_bind]
  rcases hb s with ⟨e, s', hbs, hxs⟩ | ⟨ts, s', z, hbs, hts, hxs⟩
  · rw [hbs, hxs]
    exact .inl ⟨e, s', rfl, rfl⟩
  · rw [hbs, hxs, ← ran_bind]
    exact .inr ⟨ts ++ us, s', _, rfl, hts.append hus hplain, rfl⟩

/-- A task that needs no care when something fails does what it begins. -/
theorem Begins.does {task : Task} {x : Act Unit} (h : Begins depth (beginTask depth task) x)
    (hcatches : task.catches = false) (hscript : ∀ step script, task ≠ .script (step :: script)) :
    Does depth [task] x := by
  intro s rest answers hdepth
  have hstep := congrArg some (proceed_of_begin hcatches hscript s (task :: rest) rest answers)
  rw [hdepth] at hstep
  rcases h s with ⟨e, s', hb, hx⟩ | ⟨ts, s', y, hb, hts, hx⟩ <;> rw [hb] at hstep <;> rw [hx]
  · exact .single hstep
  · exact .head hstep (hts s' rest answers hdepth)

/-! ### Announcements -/

section Announcing

variable {respond : Respond} (hr : ∀ caller c, Does depth [.call caller c] (respond c))
include hr

theorem does_listeners (caller : Caller) (call : ListenerCall) :
    ∀ members, Does depth [.listeners caller call members] (callListeners respond call members)
  | [] => (begins_pure does_nil).does rfl (by rintro _ _ ⟨⟩)
  | id :: rest => by
    refine Begins.does (begins_pure ?_) rfl (by rintro _ _ ⟨⟩)
    refine (hr caller (.listener id call)).append (does_listeners caller call rest) ?_
    rintro _ (_ | ⟨_, ⟨⟩⟩)
    rfl

theorem does_subscribers (caller : Caller) (index : Nat) (event : TraceEvent) :
    ∀ entries, Does depth [.subscribers caller index event entries]
      (callSubscribers respond index event entries)
  | [] => (begins_pure does_nil).does rfl (by rintro _ _ ⟨⟩)
  | e :: rest => by
    have ih := does_subscribers caller index event rest
    refine Begins.does (begins_bind _ fun t => ?_) rfl (by rintro _ _ ⟨⟩)
    cases t.subscriptions.claim e with
    | none => exact begins_pure ih
    | some subscriptions =>
      refine begins_bind _ fun _ => ?_
      cases e.subscriber with
      | observer id =>
        refine begins_pure ((hr caller (.trace id event)).append ih ?_)
        rintro _ (_ | ⟨_, ⟨⟩⟩)
        rfl
      | collector k => exact begins_bind _ fun _ => begins_pure ih

theorem begins_notice (index : Nat) (before : Tracker) (n : Notice) :
    Begins depth (beginNotice index before n) (giveNotice respond index before n) := by
  cases n with
  | listeners call => exact begins_bind _ fun t => begins_pure (does_listeners hr _ _ _)
  | trace event =>
    have hemit : giveNotice respond index before (.trace event) =
        tracker index >>= fun t =>
          callSubscribers respond index event (t.subscriptions.ofKind event.kind) := by
      simp [giveNotice, emit]
    rw [hemit]
    exact begins_bind _ fun t => begins_pure (does_subscribers hr _ _ _ _)
  | deliver delivery =>
    rw [beginNotice, giveNotice]
    cases before.callbackFor delivery with
    | some id => exact begins_pure (hr _ _)
    | none => exact begins_pure does_nil

theorem does_notices (index : Nat) (before : Tracker) :
    ∀ ns, Does depth [.notices index before ns] (giveNotices respond index before ns)
  | [] => (begins_pure does_nil).does rfl (by rintro _ _ ⟨⟩)
  | n :: rest => by
    refine Begins.does ((begins_notice hr index before n).append (does_notices index before rest) ?_) rfl
      (by rintro _ _ ⟨⟩)
    rintro _ (_ | ⟨_, ⟨⟩⟩)
    rfl

/-- An announcement ends whether it failed or not. -/
theorem does_announcement (index : Nat) (before : Tracker) (ns : List Notice) :
    Does depth [.notices index before ns, .endAnnouncement index]
      (ensuring (giveNotices respond index before ns) fun s =>
        s.modifyTracker index fun t => { t with announcing := t.announcing - 1 }) := by
  intro s rest answers hdepth
  have hns := does_notices hr index before ns s (.endAnnouncement index :: rest) answers
    ((depth_of_not_isScript rfl rest).trans hdepth)
  refine hns.tail ?_
  rfl

theorem begins_step (index : Nat) (step : Step) :
    Begins depth (beginStep index step) (carryOutStep respond index step) := by
  cases step with
  | change c =>
    have hbind : carryOutStep respond index (.change c) =
        modifyTracker index (fun t => { t with core := c.apply t.core }) >>= fun _ => pure () :=
      (bind_pure _).symm
    rw [hbind]
    exact begins_bind _ fun _ => begins_pure does_nil
  | announce ns =>
    exact begins_bind _ fun t => begins_bind _ fun _ => begins_pure (does_announcement hr _ _ _)
  | log m =>
    have hbind : carryOutStep respond index (.log m) =
        tracker index >>= fun t => write t.log m >>= fun _ => pure () := by
      simp [carryOutStep]
    rw [hbind]
    exact begins_bind _ fun t => begins_bind _ fun _ => begins_pure does_nil

theorem does_steps (index : Nat) :
    ∀ steps, Does depth [.steps index steps] (carryOutSteps respond index steps)
  | [] => (begins_pure does_nil).does rfl (by rintro _ _ ⟨⟩)
  | step :: rest => by
    refine Begins.does ((begins_step hr index step).append (does_steps index rest) ?_) rfl (by rintro _ _ ⟨⟩)
    rintro _ (_ | ⟨_, ⟨⟩⟩)
    rfl

end Announcing

/-! ### Requests -/

/-- Requests that do not call observers are carried out alike whatever observers do. -/
theorem perform_eq_silent {r : Request} (h : r.callsObservers = false) (respond : Respond) :
    perform respond r = perform silent r := by
  cases r with
  | tracker name q =>
    cases q with
    | transition | emit => cases h
    | ask question now on =>
      refine congrArg (get >>= ·) (funext fun s => congrArg _ (funext fun index => ?_))
      exact congrArg (tracker index >>= ·) (funext fun _ => askTracker_congr index question now on)
    | _ => rfl
  | registry name q =>
    cases q with
    | notify => cases h
    | _ => rfl
  | _ => rfl

/-- A request that begins like this ends as the action does when what it was begun for is done. -/
def Opens (depth : Nat) (b : Act (List Task × Except Fault Value)) (x : Act Value) : Prop :=
  ∀ s, (∃ e s', b.ran s = (.error e, s') ∧ x.ran s = (.error e, s')) ∨
    ∃ work result s' y, b.ran s = (.ok (work, result), s') ∧ Does depth work y ∧
      x.ran s = onward (fun _ => ofExcept result) (y.ran s')

theorem opens_pure {work : List Task} {result : Except Fault Value} {x : Act Value} {y : Act Unit}
    (h : Does depth work y) (hx : x = y >>= fun _ => ofExcept result) : Opens depth (pure (work, result)) x :=
  fun s => .inr ⟨work, result, s, y, rfl, h, by rw [hx, ran_bind]⟩

theorem opens_bind {α : Type} (z : Act α) {b : α → Act (List Task × Except Fault Value)} {x : α → Act Value}
    (h : ∀ a, Opens depth (b a) (x a)) : Opens depth (z >>= b) (z >>= x) := by
  intro s
  rw [ran_bind, ran_bind]
  rcases z.ran s with ⟨e | a, s'⟩
  · exact .inl ⟨e, s', rfl, rfl⟩
  · exact h a s'

/-- It makes no difference to look twice. -/
theorem tracker_bind_tracker {α : Type} (index : Nat) (f : Tracker → Act α) :
    (tracker index >>= fun _ => tracker index >>= f) = tracker index >>= f := by
  funext s
  change (tracker index >>= fun _ => tracker index >>= f).ran s = (tracker index >>= f).ran s
  rw [ran_bind, ran_bind]
  cases ht : s.trackers[index]? with
  | none => rw [ran_tracker_none ht, onward, onward]
  | some t => rw [ran_tracker ht, onward, onward, ran_bind, ran_tracker ht, onward]

theorem opens_request {respond : Respond} (hr : ∀ caller c, Does depth [.call caller c] (respond c))
    (r : Request) : Opens depth (opening r) (perform respond r) := by
  cases hcalls : r.callsObservers with
  | false =>
    rw [opening_eq_silent hcalls, perform_eq_silent hcalls respond, ← bind_pure (perform silent r)]
    simp only [bind_assoc, pure_bind]
    exact opens_bind _ fun value => opens_pure does_nil rfl
  | true =>
    cases r with
    | tracker name q =>
      cases q with
      | transition x =>
        refine opens_bind get fun s => opens_bind _ fun index => opens_bind _ fun t => ?_
        refine opens_pure (does_steps hr index _) ?_
        simp only [carryOut, bind_assoc]
        cases (t.plan x).outcome <;> rfl
      | emit event =>
        refine opens_bind get fun s => opens_bind _ fun index => ?_
        have hlook : performOnTracker respond index (.emit event) = tracker index >>= fun t =>
            callSubscribers respond index event (t.subscriptions.ofKind event.kind) >>= fun _ =>
              pure (.flag !(t.subscriptions.ofKind event.kind).isEmpty) := by
          simp only [performOnTracker, emit, bind_assoc, pure_bind, tracker_bind_tracker]
        rw [hlook]
        exact opens_bind _ fun t => opens_pure (does_subscribers hr _ index event _) rfl
      | _ => cases hcalls
    | registry name q =>
      cases q with
      | notify call =>
        refine opens_bind get fun s => opens_bind _ fun set => ?_
        exact opens_pure (does_listeners hr _ call _) rfl
      | _ => cases hcalls
    | _ => cases hcalls

/-- A request that an action carries out is replied to. -/
theorem ran_reply_eq (p : Request → Act Value) (r : Request) (s : Session) :
    (reply p r).ran s = (.ok (((p r).ran s).2.replyTo r ((p r).ran s).1), ((p r).ran s).2) := by
  have hattempt : (attempt (p r)).ran s = (.ok ((p r).ran s).1, ((p r).ran s).2) := rfl
  rw [reply, ran_bind, hattempt]
  cases r <;> rfl

/-- Then the request is answered next, in the session that it left. -/
theorem steps_ask {respond : Respond} (hr : ∀ caller c, Does depth [.call caller c] (respond c)) (r : Request)
    (frame : Except Fault Value → Task) (hframe : ∀ result, (frame result).isScript = false) (s : Session)
    {rest : List Task} (hdepth : Machine.depth rest = depth) (answers : List Session.Answer) :
    ∃ result fault, Steps ((⟨s, [], none, answers⟩ : Machine).ask r frame rest)
        ⟨((perform respond r).ran s).2, frame result :: rest, fault, answers⟩ ∧
      ∀ s' tasks, (⟨s', tasks, fault, answers⟩ : Machine).outcome result = ((perform respond r).ran s).1 := by
  rcases opens_request hr r s with ⟨e, s', hopen, hran⟩ | ⟨work, result, s', y, hopen, hwork, hran⟩
  · rw [hran, Machine.ask, hopen]
    exact ⟨.error e, none, .refl, fun _ _ => rfl⟩
  · have hsteps := hwork s' (frame result :: rest) answers
      ((depth_of_not_isScript (hframe result) rest).trans hdepth)
    rw [hran, Machine.ask, hopen]
    rcases hy : y.ran s' with ⟨e | ⟨⟩, s''⟩ <;> rw [hy] at hsteps
    · exact ⟨result, some e, hsteps, fun _ _ => rfl⟩
    · rw [onward, ran_ofExcept]
      exact ⟨result, none, hsteps, fun _ _ => rfl⟩

/-! ### Observers -/

theorem result_replyTo (s : Session) (r : Request) (result : Except Fault Value) :
    (s.replyTo r result).result = result := by
  cases r <;> rfl

/-- An observer makes a request, and unless it fails with it, it makes the others. -/
theorem ran_runScript_cons (p : Request → Act Value) (step : Scripted Request) (script : Script)
    {s s' : Session} {result : Except Fault Value} (h : (p step.request).ran s = (result, s')) :
    (runScript p (step :: script)).ran s =
      let seen := s'.see (.nested step.request.name (s'.replyTo step.request result))
      match if step.rethrow then fault? result else none with
      | some e => (.error e, seen)
      | none => (runScript p script).ran seen := by
  rw [runScript, ran_bind, ran_reply_eq, h, onward, ran_bind]
  dsimp only
  rw [result_replyTo]
  cases result with
  | ok v =>
    have hnone : (if step.rethrow then fault? (.ok v : Except Fault Value) else none) = none := by
      split <;> rfl
    rw [hnone]
    rfl
  | error e =>
    cases step.rethrow <;> rfl

/-- A script does what an observer does. -/
theorem does_script {respond : Respond} (hr : ∀ caller c, Does depth [.call caller c] (respond c)) :
    ∀ script, Does (depth + 1) [.script script] (runScript (perform respond) script)
  | [] => (begins_pure does_nil).does rfl (by rintro _ _ ⟨⟩)
  | step :: script => by
    have ih := does_script hr script
    intro s rest answers hdepth
    have hbelow : Machine.depth (.script script :: rest) = depth := by
      rw [depth_script, hdepth, Nat.add_sub_cancel]
    obtain ⟨result, fault, hsteps, houtcome⟩ := steps_ask hr step.request (.reply step)
      (fun _ => rfl) s hbelow answers
    have hbegin : (⟨s, .script (step :: script) :: rest, none, answers⟩ : Machine).step =
        some ((⟨s, [], none, answers⟩ : Machine).ask step.request (.reply step)
          (.script script :: rest)) := rfl
    rcases hended : (perform respond step.request).ran s with ⟨ended, s'⟩
    rw [hended] at hsteps houtcome
    have hreply := step_reply s' step result (.script script :: rest) fault answers
    rw [houtcome] at hreply
    refine .head hbegin (hsteps.trans (.head hreply ?_))
    rw [ran_runScript_cons _ step script hended]
    dsimp only
    cases if step.rethrow then fault? ended else none with
    | some e => cases script <;> exact .single rfl
    | none => exact ih _ rest answers hdepth

/-- A call does what the observer does that is called. -/
theorem does_call : ∀ (depth : Nat) (caller : Caller) (c : ObserverCall),
    Does depth [.call caller c] (respond depth c)
  | 0, _, _ => Begins.does (fun s => .inl ⟨_, s, rfl, rfl⟩) rfl (by rintro _ _ ⟨⟩)
  | depth + 1, caller, c => by
    refine Begins.does (begins_bind _ fun _ => begins_bind _ fun s => begins_pure ?_) rfl (by rintro _ _ ⟨⟩)
    exact does_script (does_call depth) _

end Act

theorem Session.after_snoc (s : Session) (rs : List Request) (r : Request) :
    s.after (rs ++ [r]) = ((s.after rs).step r).2 := by
  rw [after, List.foldl_append]
  rfl

theorem Session.run_snoc (s : Session) (rs : List Request) (r : Request) :
    s.run (rs ++ [r]) = s.run rs ++ [((s.after rs).step r).1] := by
  induction rs generalizing s with
  | nil => rfl
  | cons first rest ih => exact congrArg _ (ih _)

namespace Machine

open Act

/-- The machine carries out a request as the session does. -/
theorem steps_begin (s : Session) (r : Request) (answers : List Session.Answer) :
    Steps ((⟨s, [], none, answers⟩ : Machine).begin r)
      ⟨(s.step r).2, [], none, answers ++ [(s.step r).1]⟩ := by
  obtain ⟨result, fault, hsteps, houtcome⟩ := steps_ask (does_call Session.nestingLimit) r
    (.answer r) (fun _ => rfl) { s with events := #[] } (rfl : depth [] = Session.nestingLimit) answers
  have hstep : s.step r =
      let ended := (perform (respond Session.nestingLimit) r).ran { s with events := #[] }
      (⟨ended.2.replyTo r ended.1, ended.2.events⟩, ended.2) := by
    have hby : s.step r = s.stepBy (perform (respond Session.nestingLimit)) r := rfl
    rw [hby, Session.stepBy, ran_reply_eq]
  have hanswer :=
    step_answer ((perform (respond Session.nestingLimit) r).ran { s with events := #[] }).2 r result
    [] fault answers
  rw [houtcome] at hanswer
  rw [hstep]
  exact hsteps.tail hanswer

/-- Nothing happens when nothing is left to do. -/
theorem eq_of_steps {m m' : Machine} (h : m.tasks = []) (hsteps : Steps m m') : m' = m := by
  induction hsteps with
  | refl => rfl
  | tail _ hstep ih =>
    subst ih
    rw [step, h] at hstep
    cases hstep

/-- There is one way to go on. -/
theorem steps_of_step {m m' done : Machine} (h : m.step = some m') (hdone : done.tasks = [])
    (hsteps : Steps m done) : Steps m' done := by
  rcases hsteps.cases_head with rfl | ⟨next, hnext, hrest⟩
  · rw [step, hdone] at h
    cases h
  · obtain rfl := Option.some.inj (h.symm.trans hnext)
    exact hrest

/-- From whatever state it gets into, the machine goes on to a session that requests lead to, and has answered
them as the session does. -/
theorem Reachable.finishes {m : Machine} (h : m.Reachable) :
    ∃ rs, Steps m ⟨({} : Session).after rs, [], none, ({} : Session).run rs⟩ := by
  obtain ⟨asked, h⟩ := h
  induction h with
  | nil => exact ⟨[], .refl⟩
  | snoc _ hnext ih =>
    obtain ⟨rs, hsteps⟩ := ih
    cases hnext with
    | request r hidle =>
      obtain rfl := eq_of_steps hidle hsteps
      refine ⟨rs ++ [r], ?_⟩
      rw [Session.after_snoc, Session.run_snoc]
      exact steps_begin _ r _
    | step hstep => exact ⟨rs, steps_of_step hstep rfl hsteps⟩

theorem Steps.later {m m' : Machine} (h : Steps m m') : m.Later m' := by
  induction h with
  | refl => exact .refl m
  | tail _ hstep ih => exact ih.next (.step hstep)

/-- The machine carries out requests as the session does. -/
theorem later_after (rs : List Request) (s : Session) (answers : List Session.Answer) :
    Later ⟨s, [], none, answers⟩ ⟨s.after rs, [], none, answers ++ s.run rs⟩ := by
  induction rs generalizing s answers with
  | nil =>
    rw [Session.run, List.append_nil]
    exact .refl _
  | cons r rest ih =>
    have hbegun := Later.next (.refl _) (.request r (m := ⟨s, [], none, answers⟩) rfl)
    have hfirst := hbegun.trans (steps_begin s r answers).later
    have hrest := ih (s.step r).2 (answers ++ [(s.step r).1])
    rw [List.append_assoc] at hrest
    exact hfirst.trans hrest

/-- So it does when it has nothing left to do. -/
theorem later_requests {m : Machine} (htasks : m.tasks = []) (hfault : m.fault = none) (rs : List Request) :
    m.Later ⟨m.session.after rs, [], none, m.answers ++ m.session.run rs⟩ := by
  obtain ⟨s, tasks, fault, answers⟩ := m
  obtain rfl : tasks = [] := htasks
  obtain rfl : fault = none := hfault
  exact later_after rs s answers

/-- So it gets into each session that requests lead to. -/
theorem reachable_after (rs : List Request) :
    Reachable ⟨({} : Session).after rs, [], none, ({} : Session).run rs⟩ :=
  later_after rs {} []

/-- The machine after as many steps, unless it comes to an end. -/
def advance : Nat → Machine → Machine
  | 0, m => m
  | n + 1, m =>
    match m.step with
    | some m' => advance n m'
    | none => m

theorem steps_advance (n : Nat) (m : Machine) : Steps m (m.advance n) := by
  induction n generalizing m with
  | zero => exact .refl
  | succ n ih =>
    rw [advance]
    cases hstep : m.step with
    | none => exact .refl
    | some m' => exact .head hstep (ih m')

end Machine

end RadioOccupancy
