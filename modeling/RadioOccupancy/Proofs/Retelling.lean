import RadioOccupancy.Proofs.Session.Account

/-!
What is told twice after an observer has failed.

    first attempt:   cursor |-- idle --|-- busy --x
    next attempt:    cursor |-- idle --|-- busy --|-- idle --|

A report that an observer breaks off leaves the cursor at the end of what is settled. Of the radio's own
activities, each is settled as soon as it has been told. But of a band nothing is settled before all of it has
been told. So if an observer fails among the segments of a band and one of these has been told already, the
cursor stays behind it (`Attempt.LeavesPending`). The next report that tells anything begins at the cursor and
tells of that time again, and this is the only way in which time is told twice
(`Session.Starts.told_twice_iff`).
-/

namespace RadioOccupancy

/-! ### Where a plan pauses -/

namespace Planning

variable {α β : Type} {p : Planning α} {f : α → Planning β} {core : Core} {P : List Step → Prop}
  {ds : List Step} {a : α}

/-- Where the piece refuses or logs something, what it has done so far is such as `P` says. -/
def Pauses (p : Planning α) (core : Core) (P : List Step → Prop) : Prop :=
  ∀ steps, ∃ more, (drawn p ⟨core, steps⟩).2.steps = steps ++ more ∧
    (∀ r, (drawn p ⟨core, steps⟩).1 = .error r → P (deedsOf more)) ∧
      ∀ before m after, more = before ++ .log m :: after → P (deedsOf before)

/-- It pauses at beginnings of what it does. -/
theorem Follows.pauses (h : Follows p core ds a) (hP : ∀ more, more <+: ds → P more) :
    Pauses p core P := by
  have hbefore : ∀ {more before m after}, deedsOf more <+: ds → more = before ++ .log m :: after →
      P (deedsOf before) := by
    rintro more before m after hds rfl
    exact hP _ (((List.prefix_append _ _).filter _).trans hds)
  intro steps
  obtain ⟨more, ⟨hdrawn, rfl⟩ | ⟨r, hdrawn, hds⟩⟩ := h steps
  · refine ⟨more, by rw [hdrawn], fun r hr => ?_, fun _ _ _ => hbefore List.prefix_rfl⟩
    rw [hdrawn] at hr
    cases hr
  · exact ⟨more, by rw [hdrawn], fun _ _ => hP _ hds, fun _ _ _ => hbefore hds⟩

/-- The second piece goes on where the first ended. -/
theorem Pauses.bind (hp : Pauses p core P) (hds : Follows p core ds a)
    (hf : Pauses (f a) (coreAfter ds core) fun more => P (ds ++ more)) : Pauses (p >>= f) core P := by
  intro steps
  obtain ⟨more, hsteps, herror, hlog⟩ := hp steps
  rw [drawn_bind]
  obtain ⟨more', ⟨h, rfl⟩ | ⟨r, h, -⟩⟩ := hds steps <;> rw [h] at hsteps herror ⊢
  · obtain rfl := List.append_cancel_left hsteps
    rw [coreAfter_deedsOf] at hf
    obtain ⟨rest, hrest, herror', hlog'⟩ := hf (steps ++ more')
    refine ⟨more' ++ rest, by rw [onward, hrest, List.append_assoc], fun r hr => ?_, ?_⟩
    · rw [deedsOf_append]
      exact herror' r hr
    · intro before m after heq
      rcases List.append_eq_append_iff.1 heq with ⟨mid, rfl, hmid⟩ | ⟨mid, rfl, hmid⟩
      · rw [deedsOf_append]
        exact hlog' mid m after hmid
      · cases mid with
        | nil =>
          have hlast := hlog' [] m after hmid.symm
          rwa [List.append_nil, show deedsOf [] = [] from rfl, List.append_nil] at hlast
        | cons step mid =>
          obtain ⟨rfl, -⟩ := List.cons.inj hmid
          exact hlog before m mid rfl
  · obtain rfl := List.append_cancel_left hsteps
    exact ⟨more', rfl, fun r' _ => herror r rfl, hlog⟩

/-- A piece that neither refuses nor logs anything. -/
theorem pauses_pure (a : α) : Pauses (pure a) core P :=
  fun steps => ⟨[], (List.append_nil steps).symm, by rintro r ⟨⟩, by simp⟩

theorem pauses_core : Pauses Planning.core core P :=
  fun steps => ⟨[], (List.append_nil steps).symm, by rintro r ⟨⟩, by simp⟩

theorem pauses_change (c : Change) : Pauses (change c) core P :=
  fun _ => ⟨[.change c], rfl, by rintro r ⟨⟩, fun _ _ _ h => by simp [List.cons_eq_append_iff] at h⟩

theorem pauses_announce (ns : List Notice) : Pauses (announce ns) core P :=
  fun _ => ⟨[.announce ns], rfl, by rintro r ⟨⟩, fun _ _ _ h => by simp [List.cons_eq_append_iff] at h⟩

open Report

theorem pauses_reportSegment (s : Segment) : Pauses (reportSegment s) core P := by
  rw [reportSegment]
  split
  · exact pauses_pure ()
  · exact pauses_announce _

theorem pauses_reportSegments (segments : List Segment) : Pauses (reportSegments segments) core P := by
  induction segments generalizing P with
  | nil => exact pauses_pure ()
  | cons s rest ih =>
    refine (pauses_reportSegment s).bind (follows_reportSegment s core) ?_
    rw [coreAfter_tellSegment]
    exact ih

theorem pauses_reportProgress (segments : List Segment) : Pauses (reportProgress segments) core P := by
  induction segments generalizing core P with
  | nil => exact pauses_pure ()
  | cons s rest ih =>
    exact (pauses_reportSegment s).bind (follows_reportSegment s core)
      ((pauses_change _).bind (follows_change _ _) ih)

theorem pauses_reportOwn (now : Number) : Pauses (reportOwn now) core P :=
  pauses_core.bind (follows_core core)
    ((pauses_reportProgress _).bind (follows_reportProgress _ core) (pauses_pure _))

/-- The radio's own activities are settled when their last segment has been. -/
theorem not_endsTelling_tellProgress (segments : List Segment) :
    ¬EndsTelling (tellProgress segments) := by
  rintro ⟨before, s, h⟩
  rcases List.eq_nil_or_concat segments with rfl | ⟨init, u, rfl⟩
  · cases before <;> cases h
  · rw [List.concat_eq_append, tellProgress, List.flatMap_append, List.flatMap_singleton,
      ← List.append_assoc] at h
    cases List.append_inj_right' h rfl

variable {config : Config}

/-- A report refuses between its two parts, if at all. -/
theorem pauses_reportUntil (now : Number) (on : Sensing) :
    Pauses (reportUntil now on.band (on.thresholdIn config)) core (¬EndsTelling ·) := by
  refine pauses_core.bind (follows_core core) ?_
  dsimp only [List.nil_append, coreAfter_nil]
  split
  · exact pauses_pure ()
  · cases core.record.powerState? with
    | some state => exact (pauses_reportSegment _).bind (follows_reportSegment _ core) (pauses_change _)
    | none =>
      refine (pauses_reportOwn now).bind (follows_reportOwn now core) ?_
      cases core.table.get on.band (on.thresholdIn config) with
      | ok entry =>
        exact (pauses_pure entry).bind (follows_pure entry _)
          ((pauses_reportSegments _).bind (follows_reportSegments _ _) (pauses_change _))
      | error r =>
        refine fun steps => ⟨[], (List.append_nil steps).symm, fun _ _ => ?_, by simp⟩
        change ¬EndsTelling (tellProgress (core.ownSegments now) ++ [])
        rw [List.append_nil]
        exact not_endsTelling_tellProgress _

theorem pauses_report (x : Transition) : Pauses (x.report config) core (¬EndsTelling ·) := by
  cases x with
  | transmit | receive | retune | fallAsleep | wakeUp | powerOff | powerOn | flush =>
    exact pauses_reportUntil _ _
  | detectEnergy now duration on isPrimary =>
    cases isPrimary with
    | true => exact pauses_reportUntil _ _
    | false => exact pauses_pure ()
  | completeReception now | loseReception now | abortReception now =>
    exact (pauses_reportOwn now).bind (follows_reportOwn now core) (pauses_pure ())
  | continueReception => exact pauses_pure ()

end Planning

namespace Transition
open Planning Report

variable {config : Config} {core : Core} {x : Transition}

/-- Once a transition has reported, it is not telling of a segment. -/
theorem Reporting.not_endsTelling {own band : List Segment} (h : Reporting config core x own band)
    {more : List Step} (hmore : more <+: x.enactDeeds config core) :
    ¬EndsTelling (x.reportDeeds config core ++ more) := by
  rintro ⟨before, s, heq⟩
  rcases List.eq_nil_or_concat more with rfl | ⟨init, step, rfl⟩
  · rw [List.append_nil] at heq
    rcases h.reports with ⟨hds, -⟩ | ⟨hds, -⟩ <;> rw [hds] at heq
    · exact not_endsTelling_tellProgress own ⟨before, s, heq⟩
    · rw [← List.append_assoc] at heq
      cases List.append_inj_right' heq rfl
  · rw [List.concat_eq_append, ← List.append_assoc] at heq
    rw [List.concat_eq_append, List.singleton_inj.1 (List.append_inj_right' heq rfl)] at hmore
    obtain ⟨rest, hrest⟩ := hmore
    have := stateChangesOf_enactDeeds config core x
    rw [← hrest, stateChangesOf_append, stateChangesOf_append, List.append_eq_nil_iff,
      List.append_eq_nil_iff] at this
    cases this.1.2

/-- A transition neither refuses nor logs anything just after it has told of a segment. -/
theorem pauses_body (hp : x.Permitted config core) (h : core.Coherent) (hd : core.Dated) :
    Pauses (do checkRequest x; x.body config) core (¬EndsTelling ·) := by
  have hnil : ∀ more : List Step, more <+: [] → ¬EndsTelling more := by
    rintro more hmore ⟨before, s, rfl⟩
    simp at hmore
  obtain ⟨own, band, hr⟩ := reporting hp h hd
  have henact : Follows (x.enact config) (coreAfter (x.reportDeeds config core) core)
      (x.enactDeeds config core) () := by
    rw [coreAfter_reportDeeds, ← enactDeeds_withCursor x (x.cursorAfter core)]
    exact follows_enact x _
  refine ((follows_checkRequest x).pauses hnil).bind (follows_checkRequest x) ?_
  refine ((follows_checkArguments x).pauses hnil).bind (follows_checkArguments x) ?_
  refine ((follows_checkState x).pauses hnil).bind (follows_checkState x) ?_
  exact (pauses_report x).bind (follows_report x)
    (henact.pauses fun more hmore => hr.not_endsTelling hmore)

end Transition

/-! ### Attempts that leave something pending -/

/-- The two segments have an instant in common. -/
def Segment.Overlaps (s u : Segment) : Prop :=
  s.start < u.stop ∧ u.start < s.stop

namespace Attempt
open Report

/-- A subscriber fails at a state change, after others of the band have been told. -/
def LeavesPending (a : Attempt) : Prop :=
  (∃ s, a.broken = some (telling s)) ∧ ∃ s ∈ a.told, s.IsOfBand

variable {a : Attempt}

/-- An attempt that is not broken off in an announcement is not telling of a segment when it ends. -/
theorem IsPart.not_endsTelling (ha : a.IsPart) (h : a.tracker.core.Coherent) (hd : a.tracker.core.Dated)
    (hchange : ∀ c, a.broken ≠ some (.change c)) (hannounce : ∀ ns, a.broken ≠ some (.announce ns)) :
    ¬EndsTelling (deedsOf a.done) := by
  have hdone : deedsOf a.done <+: deedsOf a.begun := (List.prefix_append a.done _).filter _
  rcases ha.deeds with hnil | ⟨hfree, hp, -⟩
  · rw [hnil] at hdone
    rw [List.prefix_nil.1 hdone]
    rintro ⟨before, s, heq⟩
    cases before <;> cases heq
  · have hplan : a.plan = a.transition.plan a.tracker.config a.tracker.core := by
      rw [plan, Tracker.plan, hfree]
    obtain ⟨more, hsteps, herror, hlog⟩ := Transition.pauses_body hp h hd []
    have hmore : a.plan.steps = more := by
      rw [hplan]
      exact hsteps
    unfold IsPart at ha
    cases hb : a.broken with
    | none =>
      rw [hb] at ha
      cases hout : a.plan.outcome with
      | error r =>
        rw [ha, hmore]
        refine herror r ?_
        rw [hplan] at hout
        exact hout
      | ok u =>
        obtain ⟨own, band, hr⟩ := Transition.reporting hp h hd
        rw [ha, show a.plan.steps = _ from rfl, plan, (Tracker.deeds_plan_of_accepted hout).2]
        exact hr.not_endsTelling List.prefix_rfl
    | some step =>
      rw [hb] at ha hchange hannounce
      obtain ⟨rest, hrest⟩ := ha
      cases step with
      | change c => exact absurd rfl (hchange c)
      | announce ns => exact absurd rfl (hannounce ns)
      | log m => exact hlog a.done m rest (hmore.symm.trans hrest)

/-- The next of some deeds is determined. -/
theorem next_unique {α : Type} {xs l : List α} {a b : α} (h : xs ++ [a] <+: l) (h' : xs ++ [b] <+: l) :
    a = b := by
  have heq := (List.prefix_of_prefix_length_le h h' (by simp)).eq_of_length (by simp)
  exact List.singleton_inj.1 (List.append_cancel_left heq)

/-- An attempt leaves the cursor behind something that it has told of just if it leaves something
pending. Of that, one segment begins at the cursor. -/
theorem IsPart.cursor_lt_iff (ha : a.IsPart) (h : a.tracker.core.Coherent) (hd : a.tracker.core.Dated)
    (hchange : ∀ c, a.broken ≠ some (.change c)) :
    ((∃ s ∈ a.told, a.coreAfter.cursor.value < s.stop.value) ↔ a.LeavesPending) ∧
      (a.LeavesPending → ∃ s ∈ a.told, s.start.value = a.coreAfter.cursor.value) := by
  have hdone : deedsOf a.done <+: deedsOf a.begun := (List.prefix_append a.done _).filter _
  have hlt : ∀ s ∈ a.told, s.start.value < s.stop.value :=
    fun s hs => (lt_of_mem_toldIn ha h hd (List.prefix_append _ _) hs).2.2.2
  have hbegun : ∀ ns, a.broken = some (.announce ns) →
      deedsOf a.begun = deedsOf a.done ++ [.announce ns] := by
    intro ns hns
    rw [begun, hns, deedsOf_append]
    rfl
  rw [LeavesPending]
  rcases ha.deeds with hnil | ⟨-, hp, hds⟩
  · rw [hnil] at hdone
    have hnone : a.told = [] := by
      rw [told, toldIn, ← stateChangesOf_deedsOf, List.prefix_nil.1 hdone]
      rfl
    simp [hnone]
  · obtain ⟨settled, pending, hl⟩ := Transition.ledger hp h hd (hdone.trans hds)
    have htold : a.told = settled ++ pending := by
      have htake := List.prefix_iff_eq_take.1 hl.inOrder
      rw [← List.length_map Segment.told, ← hl.told, stateChangesOf_deedsOf] at htake
      exact htake.symm
    have hcursor :
        (RadioOccupancy.coreAfter (deedsOf a.done) a.tracker.core).cursor = a.coreAfter.cursor := by
      rw [coreAfter_deedsOf]
      rfl
    have hreaches := hl.reaches
    obtain ⟨b, hgoesOn⟩ := hl.goesOn
    rw [hcursor] at hreaches hgoesOn
    rw [htold] at hlt ⊢
    have hfirst : (∃ s, a.broken = some (telling s)) ∧ (∃ s ∈ settled ++ pending, s.IsOfBand) →
        ∃ s ∈ pending, s.start.value = a.coreAfter.cursor.value ∧
          a.coreAfter.cursor.value < s.stop.value := by
      rintro ⟨⟨u, hu⟩, hband⟩
      rw [hbegun _ hu] at hds
      exact hgoesOn.begins (hl.band ⟨u, hds⟩ hband)
        fun s hs => hlt s (List.mem_append_right _ hs)
    refine ⟨⟨?_, fun hleft => ?_⟩, fun hleft => ?_⟩
    · rintro ⟨s, hs, hcur⟩
      have hs : s ∈ pending := (List.mem_append.1 hs).resolve_left fun hs =>
        absurd (hreaches.mem hs).2.2.2 (not_le.2 hcur)
      have hne := List.ne_nil_of_mem hs
      -- it was broken off in an announcement, and this is the next one of the report
      obtain ⟨ns, hns⟩ : ∃ ns, a.broken = some (.announce ns) := by
        by_contra hnone
        push Not at hnone
        exact ha.not_endsTelling h hd hchange hnone (hl.ends hne)
      rw [hbegun ns hns] at hds
      rcases hl.next hne with ⟨t, ht⟩ | ⟨⟨u, hu⟩, v, hv, hband⟩
      · cases next_unique hds ht
      · exact ⟨⟨u, hns.trans (congrArg some (next_unique hds hu))⟩, v, List.mem_append_right _ hv, hband⟩
    · obtain ⟨s, hs, -, hcur⟩ := hfirst hleft
      exact ⟨s, List.mem_append_right _ hs, hcur⟩
    · obtain ⟨s, hs, hstart, -⟩ := hfirst hleft
      exact ⟨s, List.mem_append_right _ hs, hstart⟩

end Attempt

/-! ### Whole courses -/

/-- In every course of a session in which a tracker begins, whatever observers do and whether they fail: the
state changes that are told are those of the segments of the attempt, and of these none shares an instant with
an earlier one of the same attempt. A segment that all subscribers have been told of shares an instant with
one that is told in a later attempt just if the attempt was broken off among the segments of a band of which
one had been told, and anything is told later. -/
theorem Session.Starts.told_twice_iff {s : Session} {i : Nat} {config : Config} (hs : s.Starts i config) :
    (∀ rs : List Request, ∃ attempts, Course i s attempts (s.after rs)) ∧
    ∀ attempts s', Course i s attempts s' → ∀ before a after, attempts = before ++ a :: after →
      (stateChangesOf a.done = a.told.map Segment.told ∧
        stateChangesOf a.begun = a.begunToTell.map Segment.told) ∧
      (a.begunToTell.Pairwise fun s u => s.stop ≤ u.start) ∧
      ((∃ b ∈ after, ∃ s ∈ a.told, ∃ u ∈ b.begunToTell, s.Overlaps u) ↔
        a.LeavesPending ∧ ∃ b ∈ after, b.begunToTell ≠ []) := by
  refine ⟨course_steps i s, ?_⟩
  rintro attempts s' hcourse before a after rfl
  have hchange := hcourse.broken_ne_change a (by simp)
  obtain ⟨t, -, -, -, htrials⟩ := hcourse.trials hs
  obtain ⟨mid, hbefore, hrest⟩ := htrials.split
  have hmid := (hbefore.ordered ⟨Core.coherent_fresh config, Core.dated_fresh config⟩).1
  obtain ⟨rfl, -, ha, hafter⟩ := hrest.of_cons
  obtain ⟨hc, hd⟩ := hmid
  obtain ⟨settled, pending, htold, hchanges, -⟩ := ha.toldIn_eq hc hd (List.prefix_append a.done _)
  obtain ⟨settled', pending', htold', hchanges', hsettled', c, hpending'⟩ :=
    ha.toldIn_eq hc hd List.prefix_rfl
  have hfollow := hsettled'.append hpending'
  rw [← htold'] at hfollow hchanges'
  rw [← htold] at hchanges
  refine ⟨⟨hchanges, hchanges'⟩, hfollow.pairwise, ?_⟩
  have hnext := ha.ordered ⟨hc, hd⟩
  obtain ⟨-, hmem, hfirst⟩ := hafter.told_from hnext
  have hparts := hafter.isPart
  have hords := (hafter.ordered hnext).2
  have hfinite : ∀ b ∈ after, ∀ u ∈ b.begunToTell,
      u.start.isFinite ∧ u.stop.isFinite ∧ u.start.value < u.stop.value := fun b hb u hu =>
    have h := Attempt.lt_of_mem_toldIn (hparts b hb) (hords b hb).1 (hords b hb).2 List.prefix_rfl hu
    ⟨h.1, h.2.1, h.2.2.2⟩
  have htells : ∀ s ∈ a.told, s.start.isFinite ∧ s.stop.isFinite := fun s hs =>
    have h := Attempt.lt_of_mem_toldIn ha hc hd (List.prefix_append a.done _) hs
    ⟨h.1, h.2.1⟩
  obtain ⟨hiff, hcursor⟩ := ha.cursor_lt_iff hc hd hchange
  constructor
  · rintro ⟨b, hb, s, hs, u, hu, -, hlt⟩
    rw [Number.lt_iff (hfinite b hb u hu).1 (htells s hs).2] at hlt
    exact ⟨hiff.1 ⟨s, hs, (hmem b hb u hu).trans_lt hlt⟩, b, hb, List.ne_nil_of_mem hu⟩
  · rintro ⟨hleft, htold⟩
    -- both begin at the cursor that the attempt has left
    obtain ⟨s, hs, hstart⟩ := hcursor hleft
    obtain ⟨b, hb, u, hu, hstart'⟩ := hfirst htold
    have hs' := (Attempt.lt_of_mem_toldIn ha hc hd (List.prefix_append a.done _) hs).2.2.2
    obtain ⟨hfin, hfin', hu'⟩ := hfinite b hb u hu
    refine ⟨b, hb, s, hs, u, hu, ?_, ?_⟩
    · rw [Number.lt_iff (htells s hs).1 hfin', hstart, ← hstart']
      exact hu'
    · rw [Number.lt_iff hfin (htells s hs).2, hstart', ← hstart]
      exact hs'

namespace Session

/-- A session in which a meter has subscribed to the state changes of the one tracker. It takes the first of
them, and fails at each that follows. -/
def metered : Session :=
  { (firstUnder "radio").modifyTracker 0 fun t =>
      { t with subscriptions := t.subscriptions.add .stateChange (.observer "meter") false } with
    scripts := [("meter stateChange",
      [⟨.script "meter" "stateChange" [⟨.raise "not ready", true⟩], false⟩])] }

theorem course_metered : Course 0 (firstUnder "radio") [] metered := by
  refine .meanwhile .nil fun t ht => ?_
  obtain rfl := Option.some.inj (show some (Tracker.first {}) = some t from ht)
  exact ⟨_, rfl, rfl, rfl, rfl, rfl⟩

/-- Energy is detected on a secondary channel between thirty and thirty-five. A flush at forty tells of the
idle time before it, which the meter takes, and then the meter fails. A flush at fifty begins at zero again.
-/
theorem idle_time_told_twice :
    ¬∀ attempts s', Course 0 (firstUnder "radio") attempts s' →
      ∀ before a after, attempts = before ++ a :: after →
        ∀ b ∈ after, ∀ s ∈ a.told, ∀ u ∈ b.begunToTell, ¬s.Overlaps u := by
  intro hclaim
  let on : Sensing := ⟨⟨0, 63⟩, none⟩
  let xs : List Transition := [.detectEnergy 30 5 on false, .flush 40 on, .flush 50 on]
  have hcourse := course_metered.attemptAll 1 xs
  have hall : (attemptAll 1 0 xs [] metered).1.map (fun a => (a.told, a.begunToTell)) =
      [([], []), ([⟨0, 30, .idle⟩], [⟨0, 30, .idle⟩, ⟨30, 35, .ccaBusy⟩]), ([], [⟨0, 30, .idle⟩])] := by
    decide +kernel
  obtain ⟨c, rest, hmade, -, hrest⟩ := List.map_eq_cons_iff.1 hall
  obtain ⟨a, rest, rfl, ha, hrest⟩ := List.map_eq_cons_iff.1 hrest
  obtain ⟨b, rest, rfl, hb, hrest⟩ := List.map_eq_cons_iff.1 hrest
  obtain rfl := List.map_eq_nil_iff.1 hrest
  rw [hmade] at hcourse
  refine hclaim _ _ hcourse [c] a [b] rfl b (by simp) ⟨0, 30, .idle⟩ ?_ ⟨0, 30, .idle⟩ ?_ ?_
  · rw [(Prod.mk.inj ha).1]
    exact List.mem_singleton_self _
  · rw [(Prod.mk.inj hb).2]
    exact List.mem_singleton_self _
  · exact ⟨by decide +kernel, by decide +kernel⟩

/-- A reception of fifty is followed by a flush at sixty. The meter takes the reception and fails at the idle
time after it. The reception is settled, so a flush at seventy begins with the idle time. -/
theorem told_once_of_reception :
    ∃ c a b s', Course 0 (firstUnder "radio") [c, a, b] s' ∧ a.told = [⟨0, 50, .rx⟩] ∧
      a.begunToTell = [⟨0, 50, .rx⟩, ⟨50, 60, .idle⟩] ∧ b.begunToTell = [⟨50, 70, .idle⟩] ∧
        ¬∃ b' ∈ [b], ∃ s ∈ a.told, ∃ u ∈ b'.begunToTell, s.Overlaps u := by
  let on : Sensing := ⟨⟨0, 63⟩, none⟩
  let xs : List Transition := [.receive 0 50 on, .flush 60 on, .flush 70 on]
  have hcourse := course_metered.attemptAll 1 xs
  have hall : (attemptAll 1 0 xs [] metered).1.map (fun a => (a.told, a.begunToTell)) =
      [([], []), ([⟨0, 50, .rx⟩], [⟨0, 50, .rx⟩, ⟨50, 60, .idle⟩]), ([], [⟨50, 70, .idle⟩])] := by
    decide +kernel
  obtain ⟨c, rest, hmade, -, hrest⟩ := List.map_eq_cons_iff.1 hall
  obtain ⟨a, rest, rfl, ha, hrest⟩ := List.map_eq_cons_iff.1 hrest
  obtain ⟨b, rest, rfl, hb, hrest⟩ := List.map_eq_cons_iff.1 hrest
  obtain rfl := List.map_eq_nil_iff.1 hrest
  rw [hmade] at hcourse
  obtain ⟨htold, hbegun⟩ := Prod.mk.inj ha
  refine ⟨c, a, b, _, hcourse, htold, hbegun, (Prod.mk.inj hb).2, ?_⟩
  obtain ⟨-, -, htwice⟩ := (starts_firstUnder "radio").told_twice_iff.2 _ _ hcourse [c] a [b] rfl
  rw [htwice]
  rintro ⟨⟨-, s, hs, hband⟩, -⟩
  rw [htold, List.mem_singleton] at hs
  rw [hs] at hband
  rcases hband with h | h <;> cases h

end Session

end RadioOccupancy
