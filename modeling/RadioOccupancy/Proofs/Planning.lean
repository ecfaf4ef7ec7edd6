import RadioOccupancy.Tracker.Transition

/-!
What drawing up a plan comes to.

`Draws p core r core' ns` says of a piece of planning that it ends with `r`, that it makes `core'` of
`core`, and that it tells observers `ns`; what it logs is left open. Each thing that a plan is made of
has one such statement, and two pieces in turn are put together by `Draws.bind` and `Draws.bind_error`,
so no other proof opens the definitions. `Checks p core c` says that the piece is a check of the
condition `c`: it passes or refuses, and changes and tells nothing either way. `Explains` says what the piece
logs of a refusal.
-/

namespace RadioOccupancy

/-- What a tracker remembers after steps. -/
def coreAfter (steps : List Step) (core : Core) : Core :=
  (Plan.mk steps (.ok ())).finalCore core

/-- What observers are told in steps. -/
def noticesOf (steps : List Step) : List Notice :=
  (Plan.mk steps (.ok ())).notices

/-- What is logged in steps. -/
def messagesOf (steps : List Step) : List Log.Message :=
  (Plan.mk steps (.ok ())).messages

/-- An error is logged in the step. -/
def Step.isError : Step → Bool
  | .log m => m.level = .error
  | .change _ | .announce _ => false

theorem coreAfter_append (steps more : List Step) (core : Core) :
    coreAfter (steps ++ more) core = coreAfter more (coreAfter steps core) := by
  simp [coreAfter, Plan.finalCore, Plan.changes]

theorem noticesOf_append (steps more : List Step) :
    noticesOf (steps ++ more) = noticesOf steps ++ noticesOf more := by
  simp [noticesOf, Plan.notices]

namespace Planning

variable {α β : Type}

/-- Runs a piece of planning on a draft: how it ends, and the draft afterwards. -/
def drawn (p : Planning α) (d : Draft) : Except Refusal α × Draft :=
  p.run.run d

/-- How it goes on with a second piece, unless the first refused. -/
def onward (f : α → Planning β) : Except Refusal α × Draft → Except Refusal β × Draft
  | (.ok a, d) => drawn (f a) d
  | (.error r, d) => (.error r, d)

/-- The second piece goes on where the first ended. -/
theorem drawn_bind (p : Planning α) (f : α → Planning β) (d : Draft) :
    drawn (p >>= f) d = onward f (drawn p d) := by
  change ((ExceptT.bindCont f (drawn p d).1).run (drawn p d).2) = _
  rcases drawn p d with ⟨_ | _, _⟩ <;> rfl

/-- The piece ends with `r`, makes `core'` of `core`, and tells observers `ns`. -/
def Draws (p : Planning α) (core : Core) (r : Except Refusal α) (core' : Core) (ns : List Notice) :
    Prop :=
  ∀ steps, ∃ more, drawn p ⟨core, steps⟩ = (r, ⟨core', steps ++ more⟩) ∧
    coreAfter more core = core' ∧ noticesOf more = ns

namespace Draws

variable {p : Planning α} {f : α → Planning β} {core core₁ core₂ : Core} {ns ms : List Notice}

/-- What a piece draws up is what its plan does. -/
theorem plan {r : Except Refusal α} (h : Draws p core r core₁ ns) :
    (Planning.plan p core).outcome = r ∧ (Planning.plan p core).finalCore core = core₁ ∧
      (Planning.plan p core).notices = ns := by
  obtain ⟨more, h, hcore, hns⟩ := h []
  have hplan : Planning.plan p core = ⟨more, r⟩ := by
    change Plan.mk (drawn p ⟨core, []⟩).2.steps (drawn p ⟨core, []⟩).1 = _
    rw [h, List.nil_append]
  rw [hplan]
  exact ⟨rfl, hcore, hns⟩

/-- The second piece goes on where the first ended. -/
theorem bind {a : α} {r : Except Refusal β} (hp : Draws p core (.ok a) core₁ ns)
    (hf : Draws (f a) core₁ r core₂ ms) : Draws (p >>= f) core r core₂ (ns ++ ms) := by
  intro steps
  obtain ⟨more, h, rfl, rfl⟩ := hp steps
  obtain ⟨more', h', rfl, rfl⟩ := hf (steps ++ more)
  refine ⟨more ++ more', ?_, coreAfter_append .., noticesOf_append ..⟩
  rw [drawn_bind, h, ← List.append_assoc]
  exact h'

/-- A refusal of the first piece is one of the whole. -/
theorem bind_error {r : Refusal} (hp : Draws p core (.error r) core₁ ns) :
    Draws (p >>= f) core (.error r) core₁ ns := by
  intro steps
  obtain ⟨more, h, hcore, hns⟩ := hp steps
  exact ⟨more, by rw [drawn_bind, h]; rfl, hcore, hns⟩

end Draws

theorem draws_pure (a : α) (core : Core) : Draws (pure a) core (.ok a) core [] :=
  fun steps => ⟨[], by rw [List.append_nil]; rfl, rfl, rfl⟩

theorem draws_core (c : Core) : Draws core c (.ok c) c [] :=
  fun steps => ⟨[], by rw [List.append_nil]; rfl, rfl, rfl⟩

theorem draws_change (c : Change) (core : Core) : Draws (change c) core (.ok ()) (c.apply core) [] :=
  fun _ => ⟨[.change c], rfl, rfl, rfl⟩

theorem draws_announce (ns : List Notice) (core : Core) : Draws (announce ns) core (.ok ()) core ns :=
  fun _ => ⟨[.announce ns], rfl, rfl, by simp [noticesOf, Plan.notices]⟩

theorem draws_log (m : Log.Message) (core : Core) : Draws (log m) core (.ok ()) core [] :=
  fun _ => ⟨[.log m], rfl, rfl, rfl⟩

theorem draws_check (result : Except Refusal α) (core : Core) :
    Draws (check result) core result core [] :=
  fun _ => ⟨[], by rw [List.append_nil]; cases result <;> rfl, rfl, rfl⟩

/-- Looking at what the tracker will remember by now draws up nothing. -/
theorem draws_core_bind {f : Core → Planning β} {core core' : Core} {r : Except Refusal β}
    {ns : List Notice} (h : Draws (f core) core r core' ns) :
    Draws (Planning.core >>= f) core r core' ns :=
  (draws_core core).bind h

/-- A check that passes draws up nothing. -/
theorem draws_check_bind {f : α → Planning β} {a : α} {core core' : Core} {r : Except Refusal β}
    {ns : List Notice} (h : Draws (f a) core r core' ns) :
    Draws (check (.ok a) >>= f) core r core' ns :=
  (draws_check (.ok a) core).bind h

/-- After a change it goes on from what the change makes. -/
theorem draws_change_bind {f : Unit → Planning β} {c : Change} {core core' : Core}
    {r : Except Refusal β} {ns : List Notice} (h : Draws (f ()) (c.apply core) r core' ns) :
    Draws (change c >>= f) core r core' ns :=
  (draws_change c core).bind h

theorem draws_refuse (operation : String) (cause : Cause) (core : Core) :
    Draws (refuse operation cause : Planning α) core (.error ⟨operation, cause⟩) core [] :=
  fun _ => ⟨[.log (refusalMessage ⟨operation, cause⟩)], rfl, rfl, rfl⟩

/-! ### Checks -/

/-- The piece is a check of the condition: it passes if the condition holds and refuses otherwise,
and it changes and tells nothing. -/
def Checks (p : Planning Unit) (core : Core) (c : Prop) : Prop :=
  (c → Draws p core (.ok ()) core []) ∧ (¬c → ∃ r, Draws p core (.error r) core [])

namespace Checks

variable {p q : Planning Unit} {core : Core} {c c' : Prop}

/-- Nothing is checked. -/
theorem pure : Checks (pure ()) core True :=
  ⟨fun _ => draws_pure _ _, fun h => absurd trivial h⟩

/-- A refusal under a condition checks that the condition does not hold. -/
theorem refuse_if {b : Prop} [Decidable b] {operation : String} {cause : Cause} :
    Checks (if b then refuse operation cause else Pure.pure ()) core (¬b) :=
  ⟨fun hb => by rw [if_neg hb]; exact draws_pure _ _,
    fun hb => ⟨_, by rw [if_pos (Decidable.of_not_not hb)]; exact draws_refuse _ _ _⟩⟩

/-- A refusal unless a condition holds checks the condition. -/
theorem refuse_unless {b : Prop} [Decidable b] {operation : String} {cause : Cause} :
    Checks (if b then Pure.pure () else refuse operation cause) core b :=
  ⟨fun hb => by rw [if_pos hb]; exact draws_pure _ _,
    fun hb => ⟨_, by rw [if_neg hb]; exact draws_refuse _ _ _⟩⟩

/-- A refusal under a condition, with more checks to come. -/
theorem refuse_then {b : Prop} [Decidable b] {operation : String} {cause : Cause}
    {f : Unit → Planning Unit} (h : Checks (f ()) core c) :
    Checks (if b then refuse operation cause >>= f else f ()) core (¬b ∧ c) := by
  by_cases hb : b
  · rw [if_pos hb]
    exact ⟨fun hc => absurd hb hc.1, fun _ => ⟨_, (draws_refuse _ _ _).bind_error⟩⟩
  · rw [if_neg hb]
    exact ⟨fun hc => h.1 hc.2, fun hc => h.2 fun hc' => hc ⟨hb, hc'⟩⟩

/-- The same condition can be put in other words. -/
theorem congr (h : Checks p core c) (hc : c ↔ c') : Checks p core c' := by
  rwa [← propext hc]

/-- Two checks in turn check both conditions. -/
theorem bind (hp : Checks p core c) (hq : Checks q core c') :
    Checks (p >>= fun _ => q) core (c ∧ c') := by
  refine ⟨fun ⟨hc, hc'⟩ => (hp.1 hc).bind (hq.1 hc'), fun h => ?_⟩
  by_cases hc : c
  · obtain ⟨r, hr⟩ := hq.2 fun hc' => h ⟨hc, hc'⟩
    exact ⟨r, (hp.1 hc).bind hr⟩
  · obtain ⟨r, hr⟩ := hp.2 hc
    exact ⟨r, hr.bind_error⟩

end Checks

theorem checks_time (operation : String) (now : Number) (core : Core) :
    Checks (checkTime operation now) core now.isTime :=
  Checks.refuse_unless

theorem checks_duration (operation : String) (duration : Number) (core : Core) :
    Checks (checkDuration operation duration) core duration.isTime :=
  Checks.refuse_unless

theorem checks_band (operation : String) (b : Band) (core : Core) :
    Checks (check (b.check operation)) core b.isValid := by
  rw [Band.check]
  refine ⟨fun hb => ?_, fun hb => ⟨⟨operation, .band b⟩, ?_⟩⟩
  · rw [if_pos hb]
    exact draws_check _ _
  · rw [if_neg hb]
    exact draws_check _ _

/-! ### Questions -/

/-- The piece plans at most log messages. -/
def Asks (p : Planning α) : Prop :=
  ∀ d, ∀ s ∈ (drawn p d).2.steps, s ∈ d.steps ∨ ∃ m, s = .log m

namespace Asks

theorem bind {p : Planning α} {f : α → Planning β} (hp : Asks p) (hf : ∀ a, Asks (f a)) :
    Asks (p >>= f) := by
  intro d s hs
  rw [drawn_bind] at hs
  have hpd := hp d
  rcases hdrawn : drawn p d with ⟨r | a, d'⟩ <;> rw [hdrawn] at hs hpd
  · exact hpd s hs
  · rcases hf a d' s hs with h | h
    · exact hpd s h
    · exact Or.inr h

theorem pure (a : α) : Asks (Pure.pure a : Planning α) :=
  fun _ _ hs => Or.inl hs

theorem throw (r : Refusal) : Asks (throw r : Planning α) :=
  fun _ _ hs => Or.inl hs

theorem core : Asks core :=
  fun _ _ hs => Or.inl hs

theorem log (m : Log.Message) : Asks (log m) := by
  intro d s hs
  rcases List.mem_append.1 hs with hs | hs
  · exact Or.inl hs
  · exact Or.inr ⟨m, List.mem_singleton.1 hs⟩

theorem check (result : Except Refusal α) : Asks (check result) := by
  cases result with
  | ok a => exact pure a
  | error r => exact throw r

theorem refuse (operation : String) (cause : Cause) : Asks (refuse operation cause : Planning α) :=
  (log _).bind fun _ => throw _

theorem checkTime (operation : String) (now : Number) : Asks (checkTime operation now) := by
  unfold Planning.checkTime
  split
  · exact pure _
  · exact refuse _ _

/-- The plan of a question holds nothing but log messages. -/
theorem plan {p : Planning α} (h : Asks p) (core : Core) :
    ∀ s ∈ (Planning.plan p core).steps, ∃ m, s = .log m := fun s hs =>
  (h ⟨core, []⟩ s hs).resolve_left List.not_mem_nil

end Asks

/-! ### Why pieces refuse, and what they log of it -/

/-- No error is logged in the steps but the message, if there is one, and that comes last. -/
def LogsLast (m? : Option Log.Message) (steps : List Step) : Prop :=
  ∃ first, steps = first ++ (m?.map Step.log).toList ∧ ∀ step ∈ first, ¬step.isError

namespace LogsLast

variable {m? : Option Log.Message} {steps more : List Step}

theorem none_iff : LogsLast none steps ↔ ∀ step ∈ steps, ¬step.isError := by
  simp [LogsLast]

theorem append (h : LogsLast none steps) (h' : LogsLast m? more) : LogsLast m? (steps ++ more) := by
  obtain ⟨first, rfl, hfirst⟩ := h'
  refine ⟨steps ++ first, (List.append_assoc ..).symm, fun step hstep => ?_⟩
  exact (List.mem_append.1 hstep).elim (none_iff.1 h step) (hfirst step)

end LogsLast

/-- What is logged of a refusal, if a piece ends with one. -/
def errorOf? (logged? : Refusal → Option Log.Message) : Except Refusal α → Option Log.Message
  | .ok _ => none
  | .error r => logged? r

/-- The piece refuses for a cause of its own, never because it is nested. It logs an error just for a refusal
of which something is logged, as its last step. -/
def Explains (logged? : Refusal → Option Log.Message) (p : Planning α) : Prop :=
  ∀ d, ∃ more, (drawn p d).2.steps = d.steps ++ more ∧ LogsLast (errorOf? logged? (drawn p d).1) more ∧
    ∀ r, (drawn p d).1 = .error r → r.cause ≠ .reentrant

namespace Explains

variable {logged? : Refusal → Option Log.Message}

theorem bind {p : Planning α} {f : α → Planning β} (hp : Explains logged? p)
    (hf : ∀ a, Explains logged? (f a)) : Explains logged? (p >>= f) := by
  intro d
  obtain ⟨more, hsteps, hlast, hown⟩ := hp d
  rw [drawn_bind]
  rcases hdrawn : drawn p d with ⟨r | a, d'⟩ <;> rw [hdrawn] at hsteps hlast hown
  · exact ⟨more, hsteps, hlast, fun r' hr => hown r' (congrArg Except.error (Except.error.inj hr))⟩
  · obtain ⟨more', hsteps', hlast', hown'⟩ := hf a d'
    exact ⟨more ++ more', by rw [onward, hsteps', hsteps, List.append_assoc], hlast.append hlast', hown'⟩

/-- A piece that ends well, with steps in which no error is logged. -/
theorem of_ok {p : Planning α} (h : ∀ d, ∃ a more, (drawn p d).1 = .ok a ∧
    (drawn p d).2.steps = d.steps ++ more ∧ ∀ step ∈ more, ¬step.isError) : Explains logged? p := by
  intro d
  obtain ⟨a, more, hok, hsteps, hquiet⟩ := h d
  rw [hok]
  exact ⟨more, hsteps, LogsLast.none_iff.2 hquiet, fun _ hr => nomatch hr⟩

theorem pure (a : α) : Explains logged? (Pure.pure a : Planning α) :=
  of_ok fun _ => ⟨a, [], rfl, (List.append_nil _).symm, by simp⟩

theorem core : Explains logged? core :=
  of_ok fun d => ⟨d.core, [], rfl, (List.append_nil _).symm, by simp⟩

theorem change (c : Change) : Explains logged? (change c) :=
  of_ok fun _ => ⟨(), [.change c], rfl, rfl, by simp [Step.isError]⟩

theorem announce (ns : List Notice) : Explains logged? (announce ns) :=
  of_ok fun _ => ⟨(), [.announce ns], rfl, rfl, by simp [Step.isError]⟩

theorem log {m : Log.Message} (h : m.level ≠ .error) : Explains logged? (log m) :=
  of_ok fun _ => ⟨(), [.log m], rfl, rfl, by simp [Step.isError, h]⟩

/-- A check of which nothing is logged. -/
theorem check {result : Except Refusal α}
    (h : ∀ r, result = .error r → r.cause ≠ .reentrant ∧ logged? r = none) :
    Explains logged? (check result) := by
  cases result with
  | ok a => exact pure a
  | error r =>
    obtain ⟨hown, hnone⟩ := h r rfl
    refine fun d => ⟨[], (List.append_nil _).symm, ⟨[], ?_, by simp⟩, fun r' hr => ?_⟩
    · exact (congrArg (fun m? => (m?.map Step.log).toList) hnone).symm
    · obtain rfl := Except.error.inj hr
      exact hown

/-- A refusal that is logged. -/
theorem report {m : Log.Message} {r : Refusal} (hown : r.cause ≠ .reentrant) (h : logged? r = some m) :
    Explains logged? (do Planning.log m; throw r : Planning α) := by
  refine fun d => ⟨[.log m], rfl, ⟨[], ?_, by simp⟩, fun r' hr => ?_⟩
  · exact (congrArg (fun m? => (m?.map Step.log).toList) h).symm
  · obtain rfl := Except.error.inj hr
    exact hown

theorem refuse {operation : String} {cause : Cause} (hown : cause ≠ .reentrant)
    (h : logged? ⟨operation, cause⟩ = some (refusalMessage ⟨operation, cause⟩)) :
    Explains logged? (refuse operation cause : Planning α) :=
  report hown h

theorem ite {b : Prop} [Decidable b] {p q : Planning α} (hp : Explains logged? p) (hq : Explains logged? q) :
    Explains logged? (if b then p else q) := by
  split
  · exact hp
  · exact hq

/-- A piece that is drawn up only under a condition, and one that follows it. -/
theorem guarded {b : Prop} [Decidable b] {p : Planning Unit} {f : Unit → Planning β}
    (hp : Explains logged? p) (hf : ∀ a, Explains logged? (f a)) :
    Explains logged? (if b then p >>= f else f ()) :=
  ite (hp.bind hf) (hf ())

/-- A check that refuses for the cause, or does nothing. -/
theorem refuse_if {b : Prop} [Decidable b] {operation : String} {cause : Cause} (hown : cause ≠ .reentrant)
    (h : logged? ⟨operation, cause⟩ = some (refusalMessage ⟨operation, cause⟩)) :
    Explains logged? (if b then Planning.refuse operation cause else Pure.pure ()) :=
  ite (refuse hown h) (pure ())

/-- What the plan of the piece comes to. -/
theorem plan {p : Planning α} (h : Explains logged? p) (core : Core) :
    LogsLast (errorOf? logged? (Planning.plan p core).outcome) (Planning.plan p core).steps ∧
      ∀ r, (Planning.plan p core).outcome = .error r → r.cause ≠ .reentrant := by
  obtain ⟨more, hsteps, hlast, hown⟩ := h ⟨core, []⟩
  rw [List.nil_append] at hsteps
  subst hsteps
  exact ⟨hlast, hown⟩

end Explains

end Planning

end RadioOccupancy
