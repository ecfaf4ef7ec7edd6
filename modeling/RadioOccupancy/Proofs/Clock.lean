import RadioOccupancy.Proofs.Session.Account

/-!
Time that does not go back, but for one transition.

    receive 0 .. 50     continue at 30     abort at 20
    lastChange = 0      lastChange = 0     not before 0: accepted

A transition must not be requested before the latest time that the tracker has acted on, which is the later of
two: when the record was last written, and the cursor. Neither is ever moved back (`Trials.latest_le`). Each
transition that is accepted moves one of them to its own time, a flush the cursor and the others the record,
except that a continued reception moves neither (`Attempt.latest_of_continues`). So what is accepted next is
not before what was accepted last, unless that was a continuation (`Session.Starts.refuses_earlier_iff`).
-/

namespace RadioOccupancy

namespace Core.Coherent

variable {core : Core}

/-- The latest time is a time, and it is the later of the two. -/
theorem latest_value (h : core.Coherent) :
    core.latest.isTime ∧ core.latest.value = max core.record.lastChange.value core.cursor.value := by
  rw [Core.latest]
  rcases Number.maximum_eq (Number.isFinite_of_isTime h.lastChange) (Number.isFinite_of_isTime h.cursor) with
    ⟨hmax, hle⟩ | ⟨hmax, hle⟩ <;> rw [hmax]
  · exact ⟨h.lastChange, (max_eq_left hle).symm⟩
  · exact ⟨h.cursor, (max_eq_right hle).symm⟩

end Core.Coherent

namespace Transition
open Planning

variable {config : Config} {core : Core} {x : Transition}

/-- One more part of an aggregate was received. -/
def Continues : Transition → Prop
  | .continueReception .. => True
  | _ => False

/-- A transition that writes to the record notes its time. -/
theorem lastChange_of_update? {c : Change} (h : x.update? = some c) (r : Record) :
    (c.applyToRecord r).lastChange = x.time := by
  cases x with
  | continueReception | flush => cases h
  | _ =>
    obtain rfl := Option.some.inj h
    rfl

/-- What comes before the latest time is refused for it. -/
theorem outcome_of_earlier (htime : x.time.isTime) (h : x.time < core.latest) :
    (x.plan config core).outcome = .error ⟨x.name, .timeWentBack x.time core.latest⟩ := by
  have hrequest : Draws (checkRequest x) core (.error ⟨x.name, .timeWentBack x.time core.latest⟩) core
      ([] ++ []) := by
    refine ((checks_time x.name x.time core).1 htime).bind (draws_core_bind ?_)
    rw [if_pos h]
    exact (draws_refuse _ _ core).bind_error
  exact hrequest.bind_error.plan.1

/-- What does not is refused for other reasons, if at all. -/
theorem continue_not_refused (psdu : Psdu) (info : SignalInfo) (vector : TxVector) {now : Number}
    (htime : now.isTime) (h : ¬now < core.latest) :
    ((continueReception now psdu info vector).plan config core).outcome.mapError Refusal.code ≠
      .error .nonMonotonicTime := by
  have hrequest : Draws (checkRequest (continueReception now psdu info vector)) core (.ok ()) core [] :=
    (checks_request _).1 ⟨htime, h, by rintro on ⟨⟩⟩
  by_cases hopen : core.record.hasOpenReception now ∧ ¬core.record.rx.stop ≤ now
  · have hp : (continueReception now psdu info vector).Permitted config core :=
      ⟨htime, h, by rintro on ⟨⟩, trivial, hopen⟩
    rw [(plan_of_permitted hp (by rintro on ⟨⟩)).1]
    rintro ⟨⟩
  · have hstate : Draws (demandContinuation "continueRxNextMpdu" now) core
        (.error ⟨"continueRxNextMpdu", .nothingToContinue (core.record.ownState now)⟩) core [] := by
      refine draws_core_bind ?_
      rw [if_pos]
      · exact draws_refuse _ _ core
      · rw [not_and_or, not_not] at hopen
        simpa using hopen
    have hbody := hrequest.bind (f := fun _ => (continueReception now psdu info vector).body config)
      ((draws_pure () core).bind (f := fun _ => _) hstate.bind_error)
    rw [show ((continueReception now psdu info vector).plan config core).outcome = _ from hbody.plan.1]
    rintro ⟨⟩

end Transition

namespace Attempt

variable {a : Attempt}

/-- The transition is accepted, and no observer breaks it off. -/
def Accepted (a : Attempt) : Prop :=
  a.broken = none ∧ a.plan.outcome = .ok ()

/-- An attempt whose transition is accepted does all its deeds. -/
theorem IsPart.of_accepted (ha : a.IsPart) (h : a.Accepted) :
    a.transition.Permitted a.tracker.config a.tracker.core ∧
      a.coreAfter =
        RadioOccupancy.coreAfter (a.transition.deeds a.tracker.config a.tracker.core) a.tracker.core := by
  obtain ⟨hbroken, hout⟩ := h
  obtain ⟨hp, hdeeds⟩ := Tracker.deeds_plan_of_accepted hout
  have hdone : a.done = (a.tracker.plan a.transition).steps := by
    unfold IsPart at ha
    rw [hbroken] at ha
    exact ha
  rw [coreAfter, hdone, ← hdeeds, coreAfter_deedsOf]
  exact ⟨hp, rfl⟩

/-- An attempt does not move the time of the last change back. -/
theorem IsPart.lastChange_le (ha : a.IsPart) (h : a.tracker.core.Coherent) :
    a.tracker.core.record.lastChange.value ≤ a.coreAfter.record.lastChange.value := by
  rcases ha.record with ⟨-, hsame⟩ | ⟨-, hp, c, hc, hwritten⟩
  · rw [hsame]
  · rw [hwritten, Transition.lastChange_of_update? hc,
      ← Number.le_iff (Number.isFinite_of_isTime h.lastChange) (Number.isFinite_of_isTime hp.time)]
    exact (h.le_of_order hp.time hp.order).1

/-- An attempt does not move the latest time back. -/
theorem IsPart.latest_le (ha : a.IsPart) (h : a.tracker.core.Coherent) (hd : a.tracker.core.Dated) :
    a.tracker.core.latest.value ≤ a.coreAfter.latest.value := by
  rw [h.latest_value.2, (ha.ordered ⟨h, hd⟩).1.latest_value.2]
  exact max_le_max (ha.lastChange_le h) (ha.cursor_le h hd)

/-- An accepted transition moves the latest time to its own, unless it is a continuation. -/
theorem IsPart.time_le_latest (ha : a.IsPart) (h : a.tracker.core.Coherent) (hd : a.tracker.core.Dated)
    (haccepted : a.Accepted) (hx : ¬a.transition.Continues) :
    a.transition.time.value ≤ a.coreAfter.latest.value := by
  obtain ⟨hp, hafter⟩ := ha.of_accepted haccepted
  rw [(ha.ordered ⟨h, hd⟩).1.latest_value.2, hafter]
  cases hc : a.transition.update? with
  | some c =>
    refine le_max_of_le_left (le_of_eq ?_)
    rw [Transition.record_deeds hc, Transition.lastChange_of_update? hc]
  | none =>
    cases hx' : a.transition with
    | flush now on =>
      rw [hx'] at hp
      refine le_max_of_le_right ?_
      rw [Transition.deeds, Transition.enactDeeds, List.append_nil, Transition.coreAfter_reportDeeds]
      change now.value ≤ (a.tracker.core.cursorUntil now).value
      have hle : now ≤ a.tracker.core.cursorUntil now := Core.Coherent.le_cursorUntil hp.time
      rw [Core.cursorUntil] at hle ⊢
      split
      · next hlate =>
        exact (Number.le_iff (Number.isFinite_of_isTime hp.time) (Number.isFinite_of_isTime h.cursor)).1 hlate
      · rfl
    | continueReception => exact absurd (by rw [hx']; trivial) hx
    | _ =>
      rw [hx'] at hc
      cases hc

/-- A continued reception leaves the latest time as it was. -/
theorem IsPart.latest_of_continues (ha : a.IsPart) (hx : a.transition.Continues) :
    a.coreAfter.latest = a.tracker.core.latest := by
  have hdone : deedsOf a.done <+: deedsOf a.begun := (List.prefix_append a.done _).filter _
  have hpre : deedsOf a.done <+: [.change .continued] := by
    rcases ha.deeds with hnil | ⟨-, -, hds⟩
    · rw [hnil] at hdone
      exact hdone.trans List.nil_prefix
    · cases hx' : a.transition with
      | continueReception =>
        rw [hx'] at hds
        exact hdone.trans hds
      | _ =>
        rw [hx'] at hx
        cases hx
  rw [coreAfter, ← coreAfter_deedsOf]
  rcases List.prefix_cons_iff.1 hpre with hnil | ⟨rest, hrest, hnil⟩
  · rw [hnil]
    rfl
  · rw [hrest, List.prefix_nil.1 hnil]
    rfl

end Attempt

/-- The latest time is not moved back by any attempts. -/
theorem Trials.latest_le {config : Config} {start core : Core} {attempts : List Attempt}
    (h : Trials config start attempts core) (hstart : start.Coherent ∧ start.Dated) :
    start.latest.value ≤ core.latest.value := by
  induction attempts generalizing start with
  | nil => rw [h.of_nil]
  | cons a rest ih =>
    obtain ⟨rfl, -, ha, hrest⟩ := h.of_cons
    exact (ha.latest_le hstart.1 hstart.2).trans (ih hrest (ha.ordered hstart))

/-- The latest time has reached the time of each transition that was accepted, if that was no continuation. -/
theorem Trials.time_le_latest {config : Config} {start core : Core} {attempts : List Attempt}
    (h : Trials config start attempts core) (hstart : start.Coherent ∧ start.Dated) {a : Attempt}
    (ha : a ∈ attempts) (haccepted : a.Accepted) (hx : ¬a.transition.Continues) :
    a.transition.time.value ≤ core.latest.value := by
  obtain ⟨before, after, rfl⟩ := List.append_of_mem ha
  obtain ⟨mid, hbefore, hrest⟩ := h.split
  have hmid := (hbefore.ordered hstart).1
  obtain ⟨rfl, -, hpart, hafter⟩ := hrest.of_cons
  exact (hpart.time_le_latest hmid.1 hmid.2 haccepted hx).trans (hafter.latest_le (hpart.ordered hmid))

/-- The times of accepted transitions do not go back, except after a continued reception. -/
theorem Trials.pairwise_time {config : Config} {start core : Core} {attempts : List Attempt}
    (h : Trials config start attempts core) (hstart : start.Coherent ∧ start.Dated) :
    attempts.Pairwise fun a b => a.Accepted → b.Accepted → ¬a.transition.Continues →
      a.transition.time ≤ b.transition.time := by
  induction h with
  | nil => exact .nil
  | @snoc attempts b h hconfig hpart ih =>
    rw [List.pairwise_append]
    refine ⟨ih, List.pairwise_singleton _ _, fun a ha b' hb haccepted haccepted' hx => ?_⟩
    obtain rfl := List.mem_singleton.1 hb
    have hc := (h.ordered hstart).1.1
    obtain ⟨hp, -⟩ := Tracker.deeds_plan_of_accepted haccepted'.2
    have htime := Number.isFinite_of_isTime (Tracker.deeds_plan_of_accepted haccepted.2).1.time
    have htime' := Number.isFinite_of_isTime hp.time
    have horder := hp.order
    rw [Number.lt_iff htime' (Number.isFinite_of_isTime hc.latest_value.1), not_lt] at horder
    exact (Number.le_iff htime htime').2 ((h.time_le_latest hstart ha haccepted hx).trans horder)

/-! ### Whole courses -/

/-- In every course of a session in which a tracker begins, whatever observers do and whether they fail: the
times of accepted transitions do not go back, except after a continued reception, which leaves the latest time
as it was. At the end, if the tracker has not been disposed of, it refuses every transition at a time before
that of an accepted one just if this was no continuation, or its time has been reached otherwise. -/
theorem Session.Starts.refuses_earlier_iff {s : Session} {i : Nat} {config : Config}
    (hs : s.Starts i config) :
    (∀ rs : List Request, ∃ attempts, Course i s attempts (s.after rs)) ∧
    ∀ attempts s', Course i s attempts s' →
      (attempts.Pairwise fun a b => a.Accepted → b.Accepted → ¬a.transition.Continues →
        a.transition.time ≤ b.transition.time) ∧
      (∀ a ∈ attempts, a.transition.Continues → a.coreAfter.latest = a.tracker.core.latest) ∧
      ∃ t, s'.trackers[i]? = some t ∧ t.announcing = 0 ∧
        ∀ a ∈ attempts, a.Accepted → t.disposed = false →
          ((∀ x : Transition, x.time.isTime → x.time < a.transition.time →
              (t.plan x).outcome.mapError Refusal.code = .error .nonMonotonicTime) ↔
            (a.transition.Continues → a.transition.time ≤ t.core.latest)) := by
  refine ⟨course_steps i s, fun attempts s' hcourse => ?_⟩
  obtain ⟨t, ht, hconfig, hfree, htrials⟩ := hcourse.trials hs
  have hstart : (Core.fresh config).Coherent ∧ (Core.fresh config).Dated :=
    ⟨Core.coherent_fresh config, Core.dated_fresh config⟩
  obtain ⟨⟨hc, -⟩, hordered⟩ := htrials.ordered hstart
  have hparts := htrials.isPart
  have htime : ∀ a ∈ attempts, a.Accepted → a.transition.time.isTime := fun a _ haccepted =>
    (Tracker.deeds_plan_of_accepted haccepted.2).1.time
  refine ⟨htrials.pairwise_time hstart, fun a ha => (hparts a ha).latest_of_continues, t, ht, hfree,
    fun a ha haccepted hd => ?_⟩
  have hlatest := hc.latest_value.1
  have hfin := Number.isFinite_of_isTime hlatest
  have hfina := Number.isFinite_of_isTime (htime a ha haccepted)
  have hplan : ∀ x, t.plan x = x.plan t.config t.core := by
    intro x
    rw [Tracker.plan, Tracker.unavailable?, hd, hfree]
    rfl
  constructor
  · intro hall _
    by_contra hnot
    have hlt : t.core.latest < a.transition.time := by
      rw [Number.lt_iff hfin hfina]
      rw [Number.le_iff hfina hfin, not_le] at hnot
      exact hnot
    have hself : ¬t.core.latest < t.core.latest := by
      rw [Number.lt_iff hfin hfin]
      exact lt_irrefl _
    have hrefused := hall (.continueReception t.core.latest ⟨[], true⟩ ⟨0, 0⟩ ⟨"", .long, 0, 20⟩) hlatest hlt
    rw [hplan] at hrefused
    exact Transition.continue_not_refused _ _ _ hlatest hself hrefused
  · intro hreached x hx hlt
    have hle : a.transition.time.value ≤ t.core.latest.value := by
      by_cases hcont : a.transition.Continues
      · exact (Number.le_iff hfina hfin).1 (hreached hcont)
      · exact htrials.time_le_latest hstart ha haccepted hcont
    have hearlier : x.time < t.core.latest := by
      have hfinx := Number.isFinite_of_isTime hx
      rw [Number.lt_iff hfinx hfina] at hlt
      rw [Number.lt_iff hfinx hfin]
      exact hlt.trans_le hle
    rw [hplan, Transition.outcome_of_earlier hx hearlier]
    rfl

namespace Session

/-- After a reception of fifty and a flush at forty, nothing is accepted at a time before forty. -/
theorem refuses_before_flush :
    ∃ c a s' t, Course 0 (firstUnder "radio") [c, a] s' ∧ s'.trackers[0]? = some t ∧ a.Accepted ∧
      a.transition.time = 40 ∧ ∀ x : Transition, x.time.isTime → x.time < 40 →
        (t.plan x).outcome.mapError Refusal.code = .error .nonMonotonicTime := by
  let on : Sensing := ⟨⟨0, 63⟩, none⟩
  let xs : List Transition := [.receive 0 50 on, .flush 40 on]
  have hcourse := (Course.nil (i := 0) (s := firstUnder "radio")).attemptAll 1 xs
  have hall : (attemptAll 1 0 xs [] (firstUnder "radio")).1.map
        (fun a => (a.broken.isNone, a.plan.outcome.isOk)) = [(true, true), (true, true)] ∧
      (attemptAll 1 0 xs [] (firstUnder "radio")).2.trackers[0]?.any (fun t => !t.disposed) = true := by
    decide +kernel
  have htransitions : (attemptAll 1 0 xs [] (firstUnder "radio")).1.map Attempt.transition = xs := by
    decide +kernel
  obtain ⟨hall, hdisposed⟩ := hall
  obtain ⟨c, rest, hmade, -, hrest⟩ := List.map_eq_cons_iff.1 hall
  obtain ⟨a, rest, rfl, ha, hrest⟩ := List.map_eq_cons_iff.1 hrest
  obtain rfl := List.map_eq_nil_iff.1 hrest
  rw [hmade] at hcourse htransitions
  obtain ⟨hbroken, hout⟩ := Prod.mk.inj ha
  have haccepted : a.Accepted := ⟨Option.isNone_iff_eq_none.1 hbroken, Act.eq_ok_of_isOk hout⟩
  have hflush : a.transition = .flush 40 on := (List.cons.inj (List.cons.inj htransitions).2).1
  obtain ⟨-, -, t, ht, -, hrefuses⟩ := (starts_firstUnder "radio").refuses_earlier_iff.2 _ _ hcourse
  rw [ht, Option.any_some, Bool.not_eq_true'] at hdisposed
  refine ⟨c, a, _, t, hcourse, ht, haccepted, by rw [hflush]; rfl, fun x hx hlt => ?_⟩
  refine (hrefuses a (by simp) haccepted hdisposed).2 ?_ x hx (by rw [hflush]; exact hlt)
  rw [hflush]
  rintro ⟨⟩

/-- A reception of fifty is continued at thirty, and then aborted at twenty. Both are accepted. -/
theorem aborts_before_continuation :
    ¬∀ attempts s', Course 0 (firstUnder "radio") attempts s' →
      attempts.Pairwise fun a b => a.Accepted → b.Accepted → a.transition.time ≤ b.transition.time := by
  intro hclaim
  let on : Sensing := ⟨⟨0, 63⟩, none⟩
  let xs : List Transition := [.receive 0 50 on,
    .continueReception 30 ⟨[⟨1, 100⟩], true⟩ ⟨20, -60⟩ ⟨"OfdmRate6Mbps", .long, 0, 20⟩,
    .abortReception 20 false]
  have hcourse := (Course.nil (i := 0) (s := firstUnder "radio")).attemptAll 1 xs
  have hall : (attemptAll 1 0 xs [] (firstUnder "radio")).1.map
      (fun a => (a.broken.isNone, a.plan.outcome.isOk)) = [(true, true), (true, true), (true, true)] := by
    decide +kernel
  have htransitions : (attemptAll 1 0 xs [] (firstUnder "radio")).1.map Attempt.transition = xs := by
    decide +kernel
  obtain ⟨c, rest, hmade, -, hrest⟩ := List.map_eq_cons_iff.1 hall
  obtain ⟨a, rest, rfl, ha, hrest⟩ := List.map_eq_cons_iff.1 hrest
  obtain ⟨b, rest, rfl, hb, hrest⟩ := List.map_eq_cons_iff.1 hrest
  obtain rfl := List.map_eq_nil_iff.1 hrest
  rw [hmade] at hcourse htransitions
  obtain ⟨hbroken, hout⟩ := Prod.mk.inj ha
  obtain ⟨hbroken', hout'⟩ := Prod.mk.inj hb
  obtain ⟨-, htail⟩ := List.cons.inj htransitions
  obtain ⟨hcontinue, htail⟩ := List.cons.inj htail
  obtain ⟨habort, -⟩ := List.cons.inj htail
  have hle : a.transition.time ≤ b.transition.time :=
    (List.pairwise_cons.1 (List.pairwise_cons.1 (hclaim _ _ hcourse)).2).1 b (by simp)
      ⟨Option.isNone_iff_eq_none.1 hbroken, Act.eq_ok_of_isOk hout⟩
      ⟨Option.isNone_iff_eq_none.1 hbroken', Act.eq_ok_of_isOk hout'⟩
  rw [hcontinue, habort] at hle
  exact absurd hle (by decide +kernel)

end Session

end RadioOccupancy
