import RadioOccupancy.Proofs.Deeds
import RadioOccupancy.Proofs.Session.Runs

/-!
Courses of events in which observers may fail.

    plan:   change  announce  change  announce  log
    done:   change  announce  change  |
    broken:                           announce

An attempt is a transition that is requested of a tracker and carried out to its end, or up to a step that
an observer breaks off. Whatever is requested of a session, from outside or by observers, is a course of
such attempts for each of its trackers (`Session.course_steps`), and each attempt finds the tracker as the
one before left it (`Session.Course.trials`). An attempt does a beginning of the deeds of its transition
(`Attempt.IsPart.deeds`). Each tracker of a session that requests lead to has such a course, from where it was
created (`Session.hasCourse_after`).
-/

namespace RadioOccupancy

/-- A transition that is requested of a tracker, and how far it is carried out. -/
structure Attempt where
  tracker : Tracker
  transition : Transition
  /-- the steps that are carried out -/
  done : List Step
  /-- the step that an observer breaks off -/
  broken : Option Step

namespace Attempt

/-- What the tracker sets out to do. -/
def plan (a : Attempt) : Plan Unit :=
  a.tracker.plan a.transition

/-- The steps that are begun. -/
def begun (a : Attempt) : List Step :=
  a.done ++ a.broken.toList

/-- What the tracker remembers after the attempt. -/
def coreAfter (a : Attempt) : Core :=
  RadioOccupancy.coreAfter a.done a.tracker.core

/-- The steps of the attempt are those of the plan, to the end or up to the broken one. -/
def IsPart (a : Attempt) : Prop :=
  match a.broken with
  | none => a.done = a.plan.steps
  | some step => ∃ rest, a.plan.steps = a.done ++ step :: rest

theorem IsPart.begun_isPrefix {a : Attempt} (h : a.IsPart) : a.begun <+: a.plan.steps := by
  unfold IsPart at h
  rw [begun]
  cases hb : a.broken with
  | none =>
    rw [hb] at h
    rw [Option.toList_none, List.append_nil, ← h]
  | some step =>
    rw [hb] at h
    obtain ⟨rest, h⟩ := h
    exact ⟨rest, by simp [h]⟩

/-- An attempt does nothing, or a beginning of the deeds of a transition that is permitted. -/
theorem IsPart.deeds {a : Attempt} (h : a.IsPart) :
    deedsOf a.begun = [] ∨ a.tracker.unavailable? = none ∧
      a.transition.Permitted a.tracker.config a.tracker.core ∧
        deedsOf a.begun <+: a.transition.deeds a.tracker.config a.tracker.core := by
  have hpre : deedsOf a.begun <+: deedsOf a.plan.steps := h.begun_isPrefix.filter _
  rcases a.tracker.deeds_plan a.transition with hnil | ⟨hfree, hp, hds⟩
  · have hpre : deedsOf a.begun <+: deedsOf (a.tracker.plan a.transition).steps := hpre
    rw [hnil] at hpre
    exact Or.inl (List.prefix_nil.1 hpre)
  · exact Or.inr ⟨hfree, hp, hpre.trans hds⟩

/-- What holds before an attempt, and throughout the deeds of its transition if that is permitted, holds at
each moment of the attempt. -/
theorem IsPart.holds {a : Attempt} {P : Core → Prop} {steps : List Step} (ha : a.IsPart)
    (h : P a.tracker.core)
    (hdeeds : a.transition.Permitted a.tracker.config a.tracker.core →
      Throughout P (a.transition.deeds a.tracker.config a.tracker.core) a.tracker.core)
    (hpre : steps <+: a.begun) : P (RadioOccupancy.coreAfter steps a.tracker.core) := by
  have hpre : deedsOf steps <+: deedsOf a.begun := hpre.filter _
  rw [← coreAfter_deedsOf]
  rcases ha.deeds with hnil | ⟨-, hp, hds⟩
  · rw [hnil] at hpre
    rw [List.prefix_nil.1 hpre]
    exact h
  · exact (hdeeds hp).of_isPrefix (hpre.trans hds)

end Attempt

/-- The attempts at a tracker that begins with `start`, each of them finding what the one before left,
and what the tracker remembers in the end. -/
inductive Trials (config : Config) (start : Core) : List Attempt → Core → Prop
  | nil : Trials config start [] start
  | snoc {attempts : List Attempt} {a : Attempt} (h : Trials config start attempts a.tracker.core)
      (hconfig : a.tracker.config = config) (hpart : a.IsPart) :
      Trials config start (attempts ++ [a]) a.coreAfter

/-- What holds at the beginning, and throughout the deeds of a permitted transition if it did before, holds
in the end and at each moment of each attempt. -/
theorem Trials.kept {config : Config} {start core : Core} {attempts : List Attempt} {P : Core → Prop}
    (h : Trials config start attempts core) (hstart : P start)
    (hstep : ∀ core (x : Transition), P core → x.Permitted config core →
      Throughout P (x.deeds config core) core) :
    P core ∧ ∀ a ∈ attempts, ∀ steps, steps <+: a.begun → P (coreAfter steps a.tracker.core) := by
  induction h with
  | nil => exact ⟨hstart, by simp⟩
  | @snoc attempts a h hconfig hpart ih =>
    obtain ⟨hbefore, hall⟩ := ih
    have ha : ∀ steps, steps <+: a.begun → P (coreAfter steps a.tracker.core) :=
      fun steps => hpart.holds hbefore (hconfig ▸ hstep _ _ hbefore)
    refine ⟨ha a.done (List.prefix_append _ _), ?_⟩
    simp only [List.forall_mem_append, List.forall_mem_singleton]
    exact ⟨hall, ha⟩

theorem Trials.of_nil {config : Config} {start core : Core} (h : Trials config start [] core) :
    core = start := by
  generalize hattempts : ([] : List Attempt) = attempts at h
  cases h with
  | nil => rfl
  | snoc => simp at hattempts

/-- What trials begin with are trials, and so is the rest of them. -/
theorem Trials.split {config : Config} {start core : Core} {before after : List Attempt}
    (h : Trials config start (before ++ after) core) :
    ∃ mid, Trials config start before mid ∧ Trials config mid after core := by
  generalize hattempts : before ++ after = attempts at h
  induction h generalizing after with
  | nil =>
    obtain ⟨rfl, rfl⟩ := List.append_eq_nil_iff.1 hattempts
    exact ⟨start, .nil, .nil⟩
  | @snoc attempts a h hconfig hpart ih =>
    rcases List.eq_nil_or_concat after with rfl | ⟨after, b, rfl⟩
    · rw [List.append_nil] at hattempts
      exact ⟨a.coreAfter, hattempts ▸ .snoc h hconfig hpart, .nil⟩
    · rw [List.concat_eq_append, ← List.append_assoc] at hattempts
      obtain ⟨hinit, hb⟩ := List.append_inj' hattempts rfl
      obtain rfl := List.singleton_inj.1 hb
      obtain ⟨mid, hbefore, hafter⟩ := ih hinit
      rw [List.concat_eq_append]
      exact ⟨mid, hbefore, .snoc hafter hconfig hpart⟩

/-- The first of some trials finds what these begin with. -/
theorem Trials.of_cons {config : Config} {start core : Core} {attempts : List Attempt} {a : Attempt}
    (h : Trials config start (a :: attempts) core) :
    a.tracker.core = start ∧ a.tracker.config = config ∧ a.IsPart ∧
      Trials config a.coreAfter attempts core := by
  rw [← List.singleton_append] at h
  obtain ⟨mid, hfirst, hrest⟩ := h.split
  generalize hattempts : [a] = all at hfirst
  cases hfirst with
  | nil => cases hattempts
  | @snoc before b hbefore hconfig hpart =>
    obtain ⟨rfl, hb⟩ := List.append_inj' (hattempts.symm.trans (List.nil_append _).symm) rfl
    obtain rfl := List.singleton_inj.1 hb
    exact ⟨hbefore.of_nil, hconfig, hpart, hrest⟩

/-- A course of events in a session, with the attempts at the tracker at an index. Requests that
observers make are part of it like others. -/
inductive Session.Course (i : Nat) (s : Session) : List Attempt → Session → Prop
  /-- nothing has happened yet -/
  | nil : Course i s [] s
  /-- a transition is requested, and no observer fails -/
  | call {attempts : List Attempt} {depth : Nat} {s₁ s₂ : Session} {t : Tracker} {x : Transition}
      (hcourse : Course i s attempts s₁) (ht : s₁.trackers[i]? = some t)
      (hcall : (Act.carryOutSteps (Act.respond depth) i (t.plan x).steps).ran s₁ = (.ok (), s₂)) :
      Course i s (attempts ++ [⟨t, x, (t.plan x).steps, none⟩]) s₂
  /-- a transition is requested, and an observer fails in one of the steps -/
  | cut {attempts : List Attempt} {depth : Nat} {s₁ s₂ s₃ : Session} {t : Tracker} {x : Transition}
      {done rest : List Step} {step : Step} {e : Fault} (hcourse : Course i s attempts s₁)
      (ht : s₁.trackers[i]? = some t) (hsteps : (t.plan x).steps = done ++ step :: rest)
      (hdone : (Act.carryOutSteps (Act.respond depth) i done).ran s₁ = (.ok (), s₂))
      (hcut : (Act.carryOutStep (Act.respond depth) i step).ran s₂ = (.error e, s₃)) :
      Course i s (attempts ++ [⟨t, x, done, some step⟩]) s₃
  /-- something else happens that leaves alone what the tracker remembers -/
  | meanwhile {attempts : List Attempt} {s₁ s₂ : Session} (hcourse : Course i s attempts s₁)
      (hkeep : KeepsAt i s₁ s₂) : Course i s attempts s₂

namespace Act

variable {i : Nat} {respond : Respond}

/-- Steps are carried out to their end, or up to one that fails. -/
theorem cut_of_error {steps : List Step} {s s' : Session} {e : Fault}
    (h : (carryOutSteps respond i steps).ran s = (.error e, s')) :
    ∃ done step rest s₁, steps = done ++ step :: rest ∧
      (carryOutSteps respond i done).ran s = (.ok (), s₁) ∧
        (carryOutStep respond i step).ran s₁ = (.error e, s') := by
  induction steps generalizing s with
  | nil => cases h
  | cons step rest ih =>
    rw [carryOutSteps, ran_bind] at h
    rcases hstep : (carryOutStep respond i step).ran s with ⟨e' | u, s₁⟩ <;> rw [hstep] at h
    · obtain ⟨he, rfl⟩ := Prod.mk.inj h
      obtain rfl := Except.error.inj he
      exact ⟨[], step, rest, s, rfl, rfl, hstep⟩
    · obtain ⟨done, step', rest', s₂, rfl, hdone, hcut⟩ := ih h
      refine ⟨step :: done, step', rest', s₂, rfl, ?_, hcut⟩
      rw [carryOutSteps, ran_bind, hstep]
      exact hdone

/-- A step that fails changes nothing that the tracker remembers. -/
theorem keeps_of_cut (hr : ∀ c, (respond c).Along (Spares i)) {step : Step} {s s' : Session} {e : Fault}
    {t : Tracker} (ht : s.trackers[i]? = some t)
    (h : (carryOutStep respond i step).ran s = (.error e, s')) :
    ∃ t', s'.trackers[i]? = some t' ∧ t.Keeps t' := by
  have hkeeps := keeps_carryOutStep hr step ht
  rw [h] at hkeeps
  cases step with
  | change c => cases h
  | announce ns => exact hkeeps
  | log m => exact hkeeps

/-- How far steps are carried out: those that are done, the one that fails, and the session afterwards. -/
def progress (respond : Respond) (i : Nat) : List Step → Session → List Step × Option Step × Session
  | [], s => ([], none, s)
  | step :: rest, s =>
    match (carryOutStep respond i step).ran s with
    | (.error _, s') => ([], some step, s')
    | (.ok (), s') =>
      let (done, broken, s'') := progress respond i rest s'
      (step :: done, broken, s'')

theorem progress_spec (respond : Respond) (i : Nat) (steps : List Step) (s : Session) :
    match progress respond i steps s with
    | (done, none, s') => done = steps ∧ (carryOutSteps respond i steps).ran s = (.ok (), s')
    | (done, some step, s') => ∃ rest s₁ e, steps = done ++ step :: rest ∧
        (carryOutSteps respond i done).ran s = (.ok (), s₁) ∧
          (carryOutStep respond i step).ran s₁ = (.error e, s') := by
  induction steps generalizing s with
  | nil => exact ⟨rfl, rfl⟩
  | cons step rest ih =>
    rw [progress]
    rcases hstep : (carryOutStep respond i step).ran s with ⟨e | ⟨⟩, s₁⟩
    · exact ⟨rest, s, e, rfl, rfl, hstep⟩
    · have hcons : ∀ steps, (carryOutSteps respond i (step :: steps)).ran s =
          (carryOutSteps respond i steps).ran s₁ := by
        intro steps
        rw [carryOutSteps, ran_bind, hstep]
        rfl
      have ih := ih s₁
      dsimp only
      rcases hprogress : progress respond i rest s₁ with ⟨done, _ | broken, s'⟩ <;> rw [hprogress] at ih
      · exact ⟨congrArg (step :: ·) ih.1, (hcons rest).trans ih.2⟩
      · obtain ⟨more, s₂, e, rfl, hdone, hcut⟩ := ih
        exact ⟨more, s₂, e, rfl, (hcons done).trans hdone, hcut⟩

end Act

/-- Transitions that are requested one after another, whether observers fail or not: the attempts that were
made, and the session afterwards. -/
def Session.attemptAll (depth i : Nat) :
    List Transition → List Attempt → Session → List Attempt × Session
  | [], attempts, s => (attempts, s)
  | x :: rest, attempts, s =>
    match s.trackers[i]? with
    | none => (attempts, s)
    | some t =>
      let (done, broken, s') := Act.progress (Act.respond depth) i (t.plan x).steps s
      attemptAll depth i rest (attempts ++ [⟨t, x, done, broken⟩]) s'

namespace Session

variable {i : Nat} {s s' : Session} {attempts : List Attempt} {config : Config}

/-- What is requested one after another is a course. -/
theorem Course.attemptAll {s₁ : Session} (depth : Nat) (xs : List Transition)
    (h : Course i s attempts s₁) :
    Course i s (Session.attemptAll depth i xs attempts s₁).1
      (Session.attemptAll depth i xs attempts s₁).2 := by
  induction xs generalizing attempts s₁ with
  | nil => exact h
  | cons x rest ih =>
    rw [Session.attemptAll]
    cases ht : s₁.trackers[i]? with
    | none => exact h
    | some t =>
      have hspec := Act.progress_spec (Act.respond depth) i (t.plan x).steps s₁
      dsimp only
      rcases hprogress : Act.progress (Act.respond depth) i (t.plan x).steps s₁ with
        ⟨done, _ | step, s₂⟩ <;> rw [hprogress] at hspec
      · obtain ⟨rfl, hcall⟩ := hspec
        exact ih (h.call ht hcall)
      · obtain ⟨more, s', e, hsteps, hdone, hcut⟩ := hspec
        exact ih (h.cut ht hsteps hdone hcut)

/-- The attempts of a course are trials of the tracker. -/
theorem Course.trials (h : Course i s attempts s') (hs : s.Starts i config) :
    ∃ t, s'.trackers[i]? = some t ∧ t.config = config ∧ t.announcing = 0 ∧
      Trials config (.fresh config) attempts t.core := by
  induction h with
  | nil =>
    obtain ⟨log, t, hcreate, ht⟩ := hs
    obtain ⟨hcore, hconfig, hfree, -⟩ := Tracker.of_create hcreate
    exact ⟨t, ht, hconfig, hfree, hcore ▸ .nil⟩
  | @call attempts depth s₁ s₂ t x hcourse ht hcall ih =>
    obtain ⟨u, hu, hconfig, hfree, htrials⟩ := ih
    obtain rfl := Option.some.inj (ht.symm.trans hu)
    obtain ⟨t', ht', hk⟩ := Act.keeps_carryOutSteps (Act.sparing_respond depth) ht hcall
    refine ⟨t', ht', hk.config.trans hconfig, hk.announcing.trans hfree, ?_⟩
    rw [hk.core]
    exact .snoc (a := ⟨t, x, (t.plan x).steps, none⟩) htrials hconfig rfl
  | @cut attempts depth s₁ s₂ s₃ t x done rest step e hcourse ht hsteps hdone hcut ih =>
    obtain ⟨u, hu, hconfig, hfree, htrials⟩ := ih
    obtain rfl := Option.some.inj (ht.symm.trans hu)
    obtain ⟨t₁, ht₁, hk₁⟩ := Act.keeps_carryOutSteps (Act.sparing_respond depth) ht hdone
    obtain ⟨t', ht', hk'⟩ := Act.keeps_of_cut (Act.sparing_respond depth) ht₁ hcut
    have hk := hk₁.trans hk'
    refine ⟨t', ht', hk.config.trans hconfig, hk.announcing.trans hfree, ?_⟩
    rw [hk.core]
    exact .snoc (a := ⟨t, x, done, some step⟩) htrials hconfig ⟨rest, hsteps⟩
  | @meanwhile attempts s₁ s₂ hcourse hkeep ih =>
    obtain ⟨u, hu, hconfig, hfree, htrials⟩ := ih
    obtain ⟨t', ht', hk⟩ := hkeep u hu
    exact ⟨t', ht', hk.config.trans hconfig, hk.announcing.trans hfree, hk.core ▸ htrials⟩

/-- No change is ever broken off. -/
theorem Course.broken_ne_change (h : Course i s attempts s') :
    ∀ a ∈ attempts, ∀ c, a.broken ≠ some (.change c) := by
  induction h with
  | nil => simp
  | call _ _ _ ih =>
    rw [List.forall_mem_append, List.forall_mem_singleton]
    exact ⟨ih, fun c => Option.some_ne_none _ |>.symm⟩
  | cut _ _ _ _ hcut ih =>
    rw [List.forall_mem_append, List.forall_mem_singleton]
    refine ⟨ih, fun c hc => ?_⟩
    rw [Option.some.inj hc] at hcut
    cases hcut
  | meanwhile _ _ ih => exact ih

/-! ### Whatever is requested is a course -/

theorem Course.append {s₁ s₂ : Session} {more : List Attempt} (h : Course i s attempts s₁)
    (h' : Course i s₁ more s₂) : Course i s (attempts ++ more) s₂ := by
  induction h' with
  | nil => exact (List.append_nil attempts).symm ▸ h
  | call _ ht hcall ih => exact List.append_assoc .. ▸ .call ih ht hcall
  | cut _ ht hsteps hdone hcut ih => exact List.append_assoc .. ▸ .cut ih ht hsteps hdone hcut
  | meanwhile _ hkeep ih => exact .meanwhile ih hkeep

/-- What led from one session to another is a course. -/
def Leads (i : Nat) (s s' : Session) : Prop :=
  ∃ attempts, Course i s attempts s'

instance (i : Nat) : Lenient i (Leads i) where
  chains :=
    { refl := fun _ => ⟨[], .nil⟩
      trans := fun ⟨_, h⟩ ⟨_, h'⟩ => ⟨_, h.append h'⟩ }
  of_keeps h _ _ := ⟨[], .meanwhile .nil h⟩

/-- A transition that is requested of the tracker is an attempt. -/
theorem takes_leads (i depth : Nat) : Act.Takes i (Leads i) (Act.respond depth) := by
  intro t x s ht
  have hend : (Act.ofExcept ((t.plan x).outcome.mapError .refused)).Along (Leads i) :=
    Act.along_ofExcept _
  rw [Act.AlongAt, Act.carryOut, Act.ran_bind]
  rcases hran : (Act.carryOutSteps (Act.respond depth) i (t.plan x).steps).ran s with ⟨e | ⟨⟩, s₂⟩
  · obtain ⟨done, step, rest, s₁, hsteps, hdone, hcut⟩ := Act.cut_of_error hran
    exact ⟨_, .cut .nil ht hsteps hdone hcut⟩
  · have hcall : Leads i s s₂ := ⟨_, .call .nil ht hran⟩
    exact Lenient.chains.trans hcall (hend s₂)

/-- Whatever is requested of a session is a course for each of its trackers. -/
theorem course_steps (i : Nat) (s : Session) (rs : List Request) :
    ∃ attempts, Course i s attempts (s.after rs) :=
  along_steps (R := Leads i) (fun depth _ => takes_leads i depth) s rs

/-! ### Every tracker has a course -/

/-- The tracker at the index has been created at some time, and what happened since then is a course. -/
def HasCourse (s : Session) (i : Nat) : Prop :=
  ∃ s₀ config attempts, s₀.Starts i config ∧ Course i s₀ attempts s

theorem HasCourse.leads (h : s.HasCourse i) (hleads : Leads i s s') : s'.HasCourse i := by
  obtain ⟨s₀, config, attempts, hstarts, hcourse⟩ := h
  obtain ⟨more, hmore⟩ := hleads
  exact ⟨s₀, config, attempts ++ more, hstarts, hcourse.append hmore⟩

/-- If the tracker at the index has a course, it does so afterwards, and so it does if it gets created. -/
def KeepsCourse (i : Nat) (s s' : Session) : Prop :=
  (∀ t, s.trackers[i]? = some t → s.HasCourse i) → ∀ t, s'.trackers[i]? = some t → s'.HasCourse i

instance (i : Nat) : Mindful i (KeepsCourse i) where
  chains := { refl := fun _ h => h, trans := fun h h' hs => h' (h hs) }
  of_keeps {s s'} hkeep hsize _ _ hs t' ht' := by
    have hlt : i < s.trackers.size := hsize ▸ (Array.getElem?_eq_some_iff.1 ht').1
    exact (hs _ (Array.getElem?_eq_getElem hlt)).leads ⟨[], .meanwhile .nil hkeep⟩
  of_create {s s' config log t} hcreate ht _ hs t' ht' := by
    by_cases hlt : i < s.trackers.size
    · exact (hs _ (Array.getElem?_eq_getElem hlt)).leads ⟨[], .meanwhile .nil (.of_push ht)⟩
    · rw [ht, Array.getElem?_push] at ht'
      split at ht'
      · next hi =>
        refine ⟨s', config, [], ⟨log, t, hcreate, ?_⟩, .nil⟩
        rw [ht, Array.getElem?_push, if_pos hi]
      · rw [Array.getElem?_eq_none (Nat.le_of_not_lt hlt)] at ht'
        cases ht'

/-- Every tracker of a session that requests lead to has a course, whether it was created from outside or by
an observer. -/
theorem hasCourse_after (rs : List Request) {t : Tracker}
    (ht : (({} : Session).after rs).trackers[i]? = some t) : (({} : Session).after rs).HasCourse i := by
  have htakes (depth : Nat) : Act.Takes i (KeepsCourse i) (Act.respond depth) := fun t x s ht hs _ _ =>
    (hs t ht).leads (takes_leads i depth t x s ht)
  exact along_steps (R := KeepsCourse i) (fun depth _ => htakes depth) {} rs
    (fun _ h => by simp at h) t ht

/-- In every session that requests lead to, what a tracker remembers is what trials have made of a fresh
start. No announcement is under way. -/
theorem trials_after (rs : List Request) {t : Tracker}
    (ht : (({} : Session).after rs).trackers[i]? = some t) :
    ∃ s₀ attempts, s₀.Starts i t.config ∧ Course i s₀ attempts (({} : Session).after rs) ∧ t.announcing = 0 ∧
      Trials t.config (.fresh t.config) attempts t.core := by
  obtain ⟨s₀, config, attempts, hstarts, hcourse⟩ := hasCourse_after rs ht
  obtain ⟨u, hu, rfl, hfree, htrials⟩ := hcourse.trials hstarts
  obtain rfl := Option.some.inj (ht.symm.trans hu)
  exact ⟨s₀, attempts, hstarts, hcourse, hfree, htrials⟩

end Session

end RadioOccupancy
