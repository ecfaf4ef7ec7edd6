import RadioOccupancy.Proofs.Session.Frame

/-!
Runs of a session, as one of its trackers sees them.

A call is a transition that is requested of the tracker and carried out to its end, so that no observer
failed. What happens between calls may change everything but what the tracker remembers. Because
observers cannot change that either, each call finds the tracker as the one before left it, and leaves
what its plan makes of it (`Session.Run.history`). Whatever is requested of a session, from outside or by
observers, makes a run as long as no observer fails in a call (`Session.reaches_steps`).
-/

namespace RadioOccupancy

/-- A transition that is requested of a tracker. -/
structure Call where
  tracker : Tracker
  transition : Transition

namespace Call

/-- What the call does. -/
def plan (c : Call) : Plan Unit :=
  c.tracker.plan c.transition

/-- The transition is accepted. -/
def Accepted (c : Call) : Prop :=
  c.plan.outcome = .ok ()

instance (c : Call) : Decidable c.Accepted :=
  match h : c.plan.outcome with
  | .ok () => .isTrue h
  | .error _ => .isFalse fun hok => by cases h.symm.trans hok

/-- What the tracker remembers after the call. -/
def coreAfter (c : Call) : Core :=
  c.plan.finalCore c.tracker.core

end Call

/-- What a tracker remembers of a radio that has done nothing yet. -/
def Core.fresh (config : Config) : Core where
  table := ⟨config.thresholdResolution, []⟩

/-- The calls of a tracker that begins with `start`, each of them finding what the one before left, and
what the tracker remembers in the end. -/
inductive History (config : Config) (start : Core) : List Call → Core → Prop
  | nil : History config start [] start
  | snoc {calls : List Call} {c : Call} (h : History config start calls c.tracker.core)
      (hconfig : c.tracker.config = config) (hfree : c.tracker.announcing = 0) :
      History config start (calls ++ [c]) c.coreAfter

/-- Nothing happens in a history without calls. -/
theorem History.of_nil {config : Config} {start core : Core} (h : History config start [] core) :
    core = start := by
  generalize hcalls : ([] : List Call) = calls at h
  cases h with
  | nil => rfl
  | snoc => simp at hcalls

/-- What a history begins with is a history, and so is the rest of it. -/
theorem History.split {config : Config} {start core : Core} {before after : List Call}
    (h : History config start (before ++ after) core) :
    ∃ mid, History config start before mid ∧ History config mid after core := by
  generalize hcalls : before ++ after = calls at h
  induction h generalizing after with
  | nil =>
    obtain ⟨rfl, rfl⟩ := List.append_eq_nil_iff.1 hcalls
    exact ⟨start, .nil, .nil⟩
  | @snoc calls c h hconfig hfree ih =>
    rcases List.eq_nil_or_concat after with rfl | ⟨after, d, rfl⟩
    · rw [List.append_nil] at hcalls
      exact ⟨c.coreAfter, hcalls ▸ .snoc h hconfig hfree, .nil⟩
    · rw [List.concat_eq_append, ← List.append_assoc] at hcalls
      obtain ⟨hinit, hd⟩ := List.append_inj' hcalls rfl
      obtain rfl := List.singleton_inj.1 hd
      obtain ⟨mid, hbefore, hafter⟩ := ih hinit
      rw [List.concat_eq_append]
      exact ⟨mid, hbefore, .snoc hafter hconfig hfree⟩

/-- The first call of a history finds what this begins with. -/
theorem History.of_cons {config : Config} {start core : Core} {calls : List Call} {c : Call}
    (h : History config start (c :: calls) core) :
    c.tracker.core = start ∧ c.tracker.config = config ∧ c.tracker.announcing = 0 ∧
      History config c.coreAfter calls core := by
  generalize hcalls : c :: calls = all at h
  induction h generalizing calls with
  | nil => cases hcalls
  | @snoc all d h hconfig hfree ih =>
    cases all with
    | nil =>
      obtain ⟨rfl, rfl⟩ := List.cons_eq_cons.1 hcalls
      exact ⟨h.of_nil, hconfig, hfree, .nil⟩
    | cons e rest =>
      rw [List.cons_append] at hcalls
      obtain ⟨rfl, rfl⟩ := List.cons_eq_cons.1 hcalls
      obtain ⟨hcore, hc, hf, hrest⟩ := ih rfl
      exact ⟨hcore, hc, hf, .snoc hrest hconfig hfree⟩

/-- A session in which a tracker is there, and has done nothing yet. -/
def Session.Starts (s : Session) (i : Nat) (config : Config) : Prop :=
  ∃ log t, Tracker.create config log = .ok t ∧ s.trackers[i]? = some t

/-- A new tracker, as the first thing in a session. -/
def Tracker.first (config : Config) : Tracker where
  config := config
  log := 0
  core := .fresh config

/-- A session in which nothing is but a new tracker. -/
def Session.first (config : Config) : Session where
  trackers := #[.first config]

theorem Session.starts_first : (Session.first {}).Starts 0 {} :=
  ⟨0, .first {}, rfl, rfl⟩

/-- A session in which nothing is but a new tracker, under a name. -/
def Session.firstUnder (name : String) : Session :=
  { Session.first {} with trackerNames := [(name, 0)] }

theorem Session.starts_firstUnder (name : String) : (Session.firstUnder name).Starts 0 {} :=
  ⟨0, .first {}, rfl, rfl⟩

/-- A run of a session, with the calls of the tracker at an index. Requests that observers make are
part of it like others. -/
inductive Session.Run (i : Nat) (s : Session) : List Call → Session → Prop
  /-- nothing has happened yet -/
  | nil : Run i s [] s
  /-- a transition is requested, and no observer fails -/
  | call {calls : List Call} {depth : Nat} {s₁ s₂ : Session} {t : Tracker} {x : Transition}
      (hrun : Run i s calls s₁) (ht : s₁.trackers[i]? = some t)
      (hcall : (Act.carryOutSteps (Act.respond depth) i (t.plan x).steps).ran s₁ = (.ok (), s₂)) :
      Run i s (calls ++ [⟨t, x⟩]) s₂
  /-- something else happens that leaves alone what the tracker remembers -/
  | meanwhile {calls : List Call} {s₁ s₂ : Session} (hrun : Run i s calls s₁) (hkeep : KeepsAt i s₁ s₂) :
      Run i s calls s₂

/-- Transitions that are requested one after another, as long as no observer fails: the calls that
were made, and the session afterwards. -/
def Session.requestAll (depth i : Nat) :
    List Transition → List Call → Session → Option (List Call × Session)
  | [], calls, s => some (calls, s)
  | x :: rest, calls, s =>
    match s.trackers[i]? with
    | none => none
    | some t =>
      match (Act.carryOutSteps (Act.respond depth) i (t.plan x).steps).ran s with
      | (.error _, _) => none
      | (.ok (), s') => requestAll depth i rest (calls ++ [⟨t, x⟩]) s'

/-- What is requested one after another is a run. -/
theorem Session.Run.requestAll {depth i : Nat} {s s₁ s' : Session} {calls calls' : List Call}
    {xs : List Transition} (hrun : Run i s calls s₁)
    (h : Session.requestAll depth i xs calls s₁ = some (calls', s')) :
    Run i s calls' s' ∧ calls'.map Call.transition = calls.map Call.transition ++ xs := by
  induction xs generalizing calls s₁ with
  | nil =>
    obtain ⟨rfl, rfl⟩ := Prod.mk.inj (Option.some.inj h)
    exact ⟨hrun, by simp⟩
  | cons x rest ih =>
    rw [Session.requestAll] at h
    split at h
    · cases h
    · next t ht =>
      split at h
      · cases h
      · next s₂ hcall =>
        obtain ⟨hrun', hmap⟩ := ih (.call hrun ht hcall) h
        exact ⟨hrun', by simpa using hmap⟩

namespace Act

variable {i : Nat} {respond : Respond}

theorem carryOutSteps_append (steps rest : List Step) :
    carryOutSteps respond i (steps ++ rest) =
      (do carryOutSteps respond i steps; carryOutSteps respond i rest) := by
  induction steps with
  | nil => simp [carryOutSteps]
  | cons step rest ih => simp [carryOutSteps, ih]

/-- When a step has been carried out, the tracker remembers what it makes of it. -/
theorem keeps_carryOutStep (hr : ∀ c, (respond c).Along (Spares i)) (step : Step) {s : Session}
    {t : Tracker} (ht : s.trackers[i]? = some t) :
    ∃ t', ((carryOutStep respond i step).ran s).2.trackers[i]? = some t' ∧
      Tracker.Keeps { t with core := RadioOccupancy.coreAfter [step] t.core } t' := by
  cases step with
  | change c => exact ⟨_, getElem?_modifyTracker ht _, .refl _⟩
  | announce ns => exact keeps_announce hr ns ht
  | log m =>
    rw [carryOutStep, ran_bind, ran_tracker ht]
    exact along_write (R := KeepsAt i) t.log m s t ht

/-- When steps have been carried out to their end, the tracker remembers what they make of it. -/
theorem keeps_carryOutSteps (hr : ∀ c, (respond c).Along (Spares i)) {steps : List Step}
    {s s' : Session} {t : Tracker} (ht : s.trackers[i]? = some t)
    (hrun : (carryOutSteps respond i steps).ran s = (.ok (), s')) :
    ∃ t', s'.trackers[i]? = some t' ∧
      Tracker.Keeps { t with core := RadioOccupancy.coreAfter steps t.core } t' := by
  induction steps generalizing s t with
  | nil =>
    obtain ⟨-, rfl⟩ := Prod.mk.inj hrun
    exact ⟨t, ht, .refl t⟩
  | cons step rest ih =>
    rw [carryOutSteps, ran_bind] at hrun
    obtain ⟨t₁, ht₁, hk₁⟩ := keeps_carryOutStep hr step ht
    rcases hstep : (carryOutStep respond i step).ran s with ⟨e | u, s₁⟩ <;> rw [hstep] at hrun ht₁
    · cases hrun
    · obtain ⟨t', ht', hk'⟩ := ih ht₁ hrun
      refine ⟨t', ht', ?_, hk'.config.trans hk₁.config, hk'.log.trans hk₁.log,
        hk'.announcing.trans hk₁.announcing⟩
      rw [hk'.core, show step :: rest = [step] ++ rest from rfl, coreAfter_append]
      exact congrArg (RadioOccupancy.coreAfter rest) hk₁.core

/-- A plan whose steps are carried out ends as it says. -/
theorem ran_carryOut {α : Type} {p : Plan α} {s s' : Session}
    (hcall : (carryOutSteps respond i p.steps).ran s = (.ok (), s')) :
    (carryOut respond i p).ran s = (p.outcome.mapError .refused, s') := by
  rw [carryOut, ran_bind, hcall, onward, ran_ofExcept]

/-- A request for a transition that is carried out to its end is answered as its plan ends. -/
theorem ran_transition {s s' : Session} {t : Tracker} {x : Transition} (ht : s.trackers[i]? = some t)
    (hcall : (carryOutSteps respond i (t.plan x).steps).ran s = (.ok (), s')) :
    (performOnTracker respond i (.transition x)).ran s =
      (((t.plan x).outcome.mapError .refused).map fun _ => .nothing, s') := by
  rw [performOnTracker, ran_bind, ran_tracker ht, onward, ran_bind, ran_carryOut hcall]
  cases (t.plan x).outcome <;> rfl

end Act

/-- A new tracker remembers nothing, is free, and has a resolution that can be used. -/
theorem Tracker.of_create {config : Config} {log : Nat} {t : Tracker}
    (h : Tracker.create config log = .ok t) :
    t.core = .fresh config ∧ t.config = config ∧ t.announcing = 0 ∧
      config.thresholdResolution.isFinite ∧ ¬config.thresholdResolution ≤ 0 := by
  rw [create, BusyTable.create, Threshold.step] at h
  split at h
  · cases h
  · split at h
    · cases h
    · next hres =>
      obtain rfl := Except.ok.inj h
      rw [Bool.or_eq_true, not_or] at hres
      exact ⟨rfl, rfl, rfl, by simpa using hres.1, by simpa using hres.2⟩

/-- The resolution of a tracker can be used. -/
theorem Session.Starts.resolution {s : Session} {i : Nat} {config : Config} (h : s.Starts i config) :
    config.thresholdResolution.isFinite ∧ ¬config.thresholdResolution ≤ 0 := by
  obtain ⟨log, t, hcreate, -⟩ := h
  obtain ⟨-, -, -, hfin, hpos⟩ := Tracker.of_create hcreate
  exact ⟨hfin, hpos⟩

/-- A tracker that is free has made calls, beginning with `start`. -/
def Session.HasHistory (s : Session) (i : Nat) (config : Config) (calls : List Call) (start : Core) : Prop :=
  ∃ t, s.trackers[i]? = some t ∧ t.config = config ∧ t.announcing = 0 ∧ History config start calls t.core

namespace Session.HasHistory

variable {i : Nat} {s s' : Session} {calls : List Call} {config : Config} {start : Core}

/-- It makes one more, in which no observer fails. -/
theorem call (h : s.HasHistory i config calls start) {respond : Act.Respond}
    (hr : ∀ c, (respond c).Along (Spares i)) {t : Tracker} {x : Transition} (ht : s.trackers[i]? = some t)
    (hcall : (Act.carryOutSteps respond i (t.plan x).steps).ran s = (.ok (), s')) :
    s'.HasHistory i config (calls ++ [⟨t, x⟩]) start := by
  obtain ⟨u, hu, hconfig, hfree, hhist⟩ := h
  obtain rfl := Option.some.inj (ht.symm.trans hu)
  obtain ⟨t', ht', hk⟩ := Act.keeps_carryOutSteps hr ht hcall
  refine ⟨t', ht', hk.config.trans hconfig, hk.announcing.trans hfree, ?_⟩
  rw [hk.core]
  exact .snoc (c := ⟨t, x⟩) hhist hconfig hfree

/-- What else happens does not matter. -/
theorem keeps (h : s.HasHistory i config calls start) (hkeep : KeepsAt i s s') :
    s'.HasHistory i config calls start := by
  obtain ⟨u, hu, hconfig, hfree, hhist⟩ := h
  obtain ⟨t', ht', hk⟩ := hkeep u hu
  exact ⟨t', ht', hk.config.trans hconfig, hk.announcing.trans hfree, hk.core ▸ hhist⟩

end Session.HasHistory

namespace Session.Run

variable {i : Nat} {s s' : Session} {calls : List Call} {config : Config}

/-- The calls of a run are a history of the tracker. -/
theorem history (h : Run i s calls s') (hs : s.Starts i config) :
    ∃ t, s'.trackers[i]? = some t ∧ t.config = config ∧ t.announcing = 0 ∧
      History config (.fresh config) calls t.core := by
  change s'.HasHistory i config calls (.fresh config)
  induction h with
  | nil =>
    obtain ⟨log, t, hcreate, ht⟩ := hs
    obtain ⟨hcore, hconfig, hfree, -⟩ := Tracker.of_create hcreate
    exact ⟨t, ht, hconfig, hfree, hcore ▸ .nil⟩
  | @call calls depth s₁ s₂ t x hrun ht hcall ih => exact ih.call (Act.sparing_respond depth) ht hcall
  | meanwhile hrun hkeep ih => exact ih.keeps hkeep

end Session.Run

/-! ### Every session is a run -/

namespace Session

/-- What led from one session to another is a run of the tracker at an index, or an observer failed in
one of its calls. -/
def Reaches (i : Nat) (s s' : Session) : Prop :=
  (∃ calls, Run i s calls s') ∨
    ∃ calls s₁ t x depth e s₂, Run i s calls s₁ ∧ s₁.trackers[i]? = some t ∧
      (Act.carryOutSteps (Act.respond depth) i (Tracker.plan t x).steps).ran s₁ = (.error e, s₂)

theorem Run.append {i : Nat} {s s₁ s₂ : Session} {calls calls' : List Call} (h : Run i s calls s₁)
    (h' : Run i s₁ calls' s₂) : Run i s (calls ++ calls') s₂ := by
  induction h' with
  | nil => exact (List.append_nil calls).symm ▸ h
  | call _ ht hcall ih => exact List.append_assoc .. ▸ .call ih ht hcall
  | meanwhile _ hkeep ih => exact .meanwhile ih hkeep

instance (i : Nat) : Lenient i (Reaches i) where
  chains :=
    { refl := fun _ => Or.inl ⟨[], .nil⟩
      trans := by
        rintro s s' s'' (⟨calls, h⟩ | hcut) h'
        · rcases h' with ⟨calls', h'⟩ | ⟨calls', s₁, t, x, depth, e, s₂, h', ht, hcall⟩
          · exact Or.inl ⟨_, h.append h'⟩
          · exact Or.inr ⟨_, s₁, t, x, depth, e, s₂, h.append h', ht, hcall⟩
        · exact Or.inr hcut }
  of_keeps h _ _ := Or.inl ⟨[], .meanwhile .nil h⟩

/-- A transition of the tracker is a call, unless an observer fails. -/
theorem takes_reaches (i depth : Nat) : Act.Takes i (Reaches i) (Act.respond depth) := by
  intro t x s ht
  rw [Act.AlongAt, Act.carryOut, Act.ran_bind]
  rcases hran : (Act.carryOutSteps (Act.respond depth) i (t.plan x).steps).ran s with ⟨e | ⟨⟩, s₂⟩
  · exact Or.inr ⟨[], s, t, x, depth, e, s₂, .nil, ht, hran⟩
  · have hcall : Reaches i s s₂ := Or.inl ⟨_, .call .nil ht hran⟩
    have hend : (Act.ofExcept ((t.plan x).outcome.mapError .refused)).Along (Reaches i) :=
      Act.along_ofExcept _
    exact Lenient.chains.trans hcall (hend s₂)

/-- Whatever is requested of a session, the calls of each tracker are a run, unless an observer fails in
one of them. -/
theorem reaches_steps (i : Nat) (s : Session) (rs : List Request) :
    Reaches i s (s.after rs) :=
  along_steps (fun depth _ => takes_reaches i depth) s rs

end Session

end RadioOccupancy
