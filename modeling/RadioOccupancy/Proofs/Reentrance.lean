import RadioOccupancy.Proofs.Explanation
import RadioOccupancy.Proofs.Session.Frame

/-!
Which transitions are refused because they are nested.

    request a transition of A             under []
      A tells observers                   under [A]
        request a transition of B         under [A]
          B tells observers               under [B, A]
            emit an event of C            under [B, A]
              request a transition of A   refused, A is among [B, A]
              request a transition of C   taken

A tracker only counts its own announcements. Here requests are carried out a second time, by observers that
know under which trackers they are called: those with a transition of their own under way that is telling
its observers. This takes the place of the count, and a transition is refused just if its tracker is among
them. Both ways of carrying out requests answer alike, whatever observers do and however they fail
(`Session.nested_exactly`): the count is right at each moment, because every action leaves it as it was
(`Act.steady_respond`).
-/

namespace RadioOccupancy

namespace Tracker

/-- The plan of a transition, if one that is nested is refused. -/
def planNested (t : Tracker) (nested : Bool) (x : Transition) : Plan Unit :=
  if t.disposed then Planning.plan (Planning.refuse x.name .disposed) t.core
  else if nested then Planning.plan (Planning.refuse x.name .reentrant) t.core
  else x.plan t.config t.core

/-- A tracker takes a transition for nested while it is announcing something. -/
theorem plan_eq_planNested {t : Tracker} {nested : Bool} (h : nested = true ↔ t.announcing ≠ 0)
    (x : Transition) : t.plan x = t.planNested nested x := by
  rw [plan, planNested, unavailable?]
  by_cases hd : t.disposed
  · rw [if_pos hd, if_pos hd]
  · rw [if_neg hd, if_neg hd]
    by_cases hn : nested
    · rw [if_pos (h.1 hn), if_pos hn]
    · rw [if_neg (mt h.2 hn), if_neg hn]

end Tracker

/-! ### Observers that know under which trackers they are called -/

namespace Act

/-- Carries out a request under trackers. Those who hear of a transition are called under its tracker
too. -/
def performUnder (respond : List Nat → Respond) (under : List Nat) : Request → Act Value
  | .tracker name (.transition x) => do
    let index ← named (← get).trackerNames name
    let t ← tracker index
    carryOut (respond (index :: under)) index (t.planNested (under.contains index) x)
    return .nothing
  | r => perform (respond under) r

/-- The response of an observer that is called under trackers. -/
def respondUnder : Nat → List Nat → Respond
  | 0, _, _ => throw .endlessNesting
  | depth + 1, under, call => do
    see (.called call)
    runScript (performUnder (respondUnder depth) under) ((← get).scriptFor call.id call.occasion)

end Act

/-! ### Every action leaves the count of announcements as it was -/

/-- The tracker at the index has as many announcements under way as before. -/
def Steady (i : Nat) (s s' : Session) : Prop :=
  s'.announcing i = s.announcing i

instance (i : Nat) : Lenient i (Steady i) where
  chains := { refl := fun _ => rfl, trans := fun h h' => h'.trans h }
  of_keeps _ h _ := h

namespace Act

variable {i : Nat} {respond : Respond}

/-- Announcements are counted while they last, whether they fail or not. -/
theorem steady_announce (hr : ∀ c, (respond c).Along (Steady i)) (index : Nat) (ns : List Notice) :
    (announce respond index ns).Along (Steady i) := by
  by_cases h : index = i
  · subst h
    intro s
    cases ht : s.trackers[index]? with
    | none =>
      rw [AlongAt, announce, ran_bind, ran_tracker_none ht]
      rfl
    | some t =>
      let marked := s.modifyTracker index fun t => { t with announcing := t.announcing + 1 }
      have hmarked : marked.announcing index = t.announcing + 1 := by
        rw [Session.announcing, getElem?_modifyTracker ht]
        rfl
      have htold : ((giveNotices respond index t ns).ran marked).2.announcing index = t.announcing + 1 :=
        (along_giveNotices hr index t ns marked).trans hmarked
      rw [AlongAt, ran_announce ns ht]
      generalize (giveNotices respond index t ns).ran marked = told at htold
      obtain ⟨r, s'⟩ := told
      -- after the notices it is still there, with its count as it was marked
      cases ht' : s'.trackers[index]? with
      | none =>
        rw [Session.announcing, ht'] at htold
        cases htold
      | some t' =>
        rw [Session.announcing, ht'] at htold
        change (Session.modifyTracker s' index _).announcing index = s.announcing index
        rw [Session.announcing, getElem?_modifyTracker ht', Session.announcing, ht]
        exact congrArg (· - 1) htold
  · exact along_announce hr h ns

theorem steady_carryOutStep (hr : ∀ c, (respond c).Along (Steady i)) (index : Nat) (step : Step) :
    (carryOutStep respond index step).Along (Steady i) := by
  cases step with
  | change c =>
    intro s
    change ((s.modifyTracker index _).trackers[i]?.map Tracker.announcing).getD 0 = s.announcing i
    rw [Session.modifyTracker, Array.getElem?_modify, Session.announcing]
    split
    · rw [Option.map_map]
      rfl
    · rfl
  | announce ns => exact steady_announce hr index ns
  | log m => exact (along_tracker index).then fun t => along_write _ m

theorem steady_carryOutSteps (hr : ∀ c, (respond c).Along (Steady i)) (index : Nat) :
    ∀ steps, (carryOutSteps respond index steps).Along (Steady i)
  | [] => along_pure ()
  | step :: rest => (steady_carryOutStep hr index step).then fun _ => steady_carryOutSteps hr index rest

theorem takes_steady (hr : ∀ c, (respond c).Along (Steady i)) : Takes i (Steady i) respond :=
  fun _ _ s _ => ((steady_carryOutSteps hr i _).then fun _ => along_ofExcept _) s

/-- Whatever observers do, in the end each tracker has as many announcements under way as before. -/
theorem steady_respond (i depth : Nat) (c : ObserverCall) : (Act.respond depth c).Along (Steady i) :=
  along_respond (fun _ hr => takes_steady hr) depth c

end Act

/-! ### Two ways to do the same -/

/-- Each tracker has as many announcements under way as it is found among those that observers are called
under. -/
def Session.IsUnder (under : List Nat) (s : Session) : Prop :=
  ∀ i, s.announcing i = under.count i

namespace Act

/-- The actions do the same when they are begun under trackers. -/
def Agree {α : Type} (under : List Nat) (x y : Act α) : Prop :=
  ∀ s, Session.IsUnder under s → x.ran s = y.ran s

section Agreement

variable {α β : Type} {under : List Nat} {respond known : Respond}

theorem Agree.refl (x : Act α) : Agree under x x :=
  fun _ _ => rfl

theorem Agree.bind {x y : Act α} {f g : α → Act β} (h : Agree under x y)
    (hy : ∀ i, y.Along (Steady i)) (hf : ∀ a, Agree under (f a) (g a)) :
    Agree under (x >>= f) (y >>= g) := by
  intro s hs
  have hunder : Session.IsUnder under (y.ran s).2 := fun i => (hy i s).trans (hs i)
  rw [ran_bind, ran_bind, h s hs]
  rcases hran : y.ran s with ⟨e | a, s'⟩
  · rfl
  · rw [hran] at hunder
    exact hf a s' hunder

/-- What is the same in both is looked at first. -/
theorem Agree.after {x : Act α} {f g : α → Act β} (hx : ∀ i, x.Along (Steady i))
    (hf : ∀ a, Agree under (f a) (g a)) : Agree under (x >>= f) (x >>= g) :=
  (Agree.refl x).bind hx hf

theorem Agree.attempt {x y : Act α} (h : Agree under x y) : Agree under (attempt x) (attempt y) := by
  intro s hs
  have hran : ∀ z : Act α, (Act.attempt z).ran s = (.ok (z.ran s).1, (z.ran s).2) := fun _ => rfl
  rw [hran, hran, h s hs]

variable (hsteady : ∀ i c, (respond c).Along (Steady i))
include hsteady

section Notices

variable (hagree : ∀ c, Agree under (known c) (respond c))
include hagree

theorem agree_callListeners (call : ListenerCall) :
    ∀ members, Agree under (callListeners known call members) (callListeners respond call members)
  | [] => .refl _
  | _ :: rest => (hagree _).bind (fun i => hsteady i _) fun _ => agree_callListeners call rest

theorem agree_callSubscribers (index : Nat) (event : TraceEvent) :
    ∀ entries, Agree under (callSubscribers known index event entries)
      (callSubscribers respond index event entries)
  | [] => .refl _
  | e :: rest => by
    have ih := agree_callSubscribers index event rest
    refine Agree.after (fun i => along_tracker index) fun t => ?_
    split
    · refine Agree.after (fun i => along_modifyTracker ?_ index) fun _ => Agree.bind ?_ ?_ fun _ => ih
      · exact fun _ => ⟨rfl, rfl, rfl, rfl⟩
      · cases e.subscriber with
        | observer id => exact hagree _
        | collector k => exact .refl _
      · exact fun i => along_callSubscriber (hsteady i) event _
    · exact ih

theorem agree_emit (index : Nat) (event : TraceEvent) :
    Agree under (emit known index event) (emit respond index event) :=
  Agree.after (fun _ => along_tracker index) fun _ =>
    (agree_callSubscribers hsteady hagree index event _).bind
      (fun i => along_callSubscribers (hsteady i) index event _) fun _ => .refl _

theorem agree_giveNotice (index : Nat) (before : Tracker) (n : Notice) :
    Agree under (giveNotice known index before n) (giveNotice respond index before n) := by
  cases n with
  | listeners call =>
    exact Agree.after (fun _ => along_tracker index) fun _ => agree_callListeners hsteady hagree call _
  | trace event =>
    exact (agree_emit hsteady hagree index event).bind (fun i => along_emit (hsteady i) index event)
      fun _ => .refl _
  | deliver delivery =>
    rw [giveNotice, giveNotice]
    split
    · exact hagree _
    · exact .refl _

theorem agree_giveNotices (index : Nat) (before : Tracker) :
    ∀ ns, Agree under (giveNotices known index before ns) (giveNotices respond index before ns)
  | [] => .refl _
  | n :: rest =>
    (agree_giveNotice hsteady hagree index before n).bind
      (fun i => along_giveNotice (hsteady i) index before n) fun _ => agree_giveNotices index before rest

end Notices

/-- Observers are called under the tracker that makes the announcement, too. -/
theorem agree_announce {index : Nat} (hagree : ∀ c, Agree (index :: under) (known c) (respond c))
    (ns : List Notice) : Agree under (announce known index ns) (announce respond index ns) := by
  intro s hs
  cases ht : s.trackers[index]? with
  | none =>
    rw [announce, announce, ran_bind, ran_bind, ran_tracker_none ht, onward, onward]
  | some t =>
    have hmarked : Session.IsUnder (index :: under)
        (s.modifyTracker index fun t => { t with announcing := t.announcing + 1 }) := by
      intro i
      have hi := hs i
      rw [Session.announcing] at hi
      rw [Session.announcing, Session.modifyTracker, Array.getElem?_modify]
      by_cases h : index = i
      · subst h
        rw [ht] at hi
        rw [if_pos rfl, ht, List.count_cons_self, ← hi]
        rfl
      · rw [if_neg h, List.count_cons_of_ne h, hi]
    rw [ran_announce ns ht, ran_announce ns ht, agree_giveNotices hsteady hagree index t ns _ hmarked]

theorem agree_carryOutSteps {index : Nat} (hagree : ∀ c, Agree (index :: under) (known c) (respond c)) :
    ∀ steps, Agree under (carryOutSteps known index steps) (carryOutSteps respond index steps)
  | [] => .refl _
  | step :: rest => by
    have hstep : Agree under (carryOutStep known index step) (carryOutStep respond index step) := by
      cases step with
      | announce ns => exact agree_announce hsteady hagree ns
      | change | log => exact .refl _
    exact hstep.bind (fun i => steady_carryOutStep (hsteady i) index step)
      fun _ => agree_carryOutSteps hagree rest

theorem agree_carryOut {index : Nat} (hagree : ∀ c, Agree (index :: under) (known c) (respond c))
    (plan : Plan α) : Agree under (carryOut known index plan) (carryOut respond index plan) :=
  (agree_carryOutSteps hsteady hagree _).bind (fun i => steady_carryOutSteps (hsteady i) index _)
    fun _ => .refl _

end Agreement

/-! ### Requests -/

section Requests

variable {respond : Respond} {known : List Nat → Respond}
  (hsteady : ∀ i c, (respond c).Along (Steady i))
  (hagree : ∀ under c, Agree under (known under c) (respond c))
include hsteady hagree

theorem agree_transition (under : List Nat) (name : String) (x : Transition) :
    Agree under (performUnder known under (.tracker name (.transition x)))
      (perform respond (.tracker name (.transition x))) := by
  have hperform : perform respond (.tracker name (.transition x)) = (do
      let index ← named (← get).trackerNames name
      let t ← tracker index
      carryOut respond index (t.plan x)
      return .nothing) := rfl
  rw [hperform, performUnder]
  refine Agree.after (fun _ => along_get) fun s => Agree.after (fun _ => along_named _ _) fun index => ?_
  intro s₁ hs₁
  rw [ran_bind, ran_bind]
  cases ht : s₁.trackers[index]? with
  | none => rw [ran_tracker_none ht, onward, onward]
  | some t =>
    -- the tracker is among those that observers are called under just if its count is not zero
    have hcount : t.announcing = under.count index := by
      rw [← hs₁ index, Session.announcing, ht]
      rfl
    have hplan : t.plan x = t.planNested (under.contains index) x := by
      refine Tracker.plan_eq_planNested ?_ x
      rw [hcount, List.contains_iff_mem, ← List.count_pos_iff, Nat.pos_iff_ne_zero]
    rw [ran_tracker ht, onward, onward, hplan]
    refine Agree.bind ?_ ?_ (fun _ => .refl _) s₁ hs₁
    · exact agree_carryOut hsteady (hagree (index :: under)) _
    · exact fun i => (steady_carryOutSteps (hsteady i) index _).then fun _ => along_ofExcept _

theorem agree_perform (under : List Nat) (r : Request) :
    Agree under (performUnder known under r) (perform respond r) := by
  cases r with
  | registry name r =>
    cases r with
    | notify call =>
      refine Agree.after (fun _ => along_get) fun s => Agree.after (fun _ => along_named _ _) fun set => ?_
      exact (agree_callListeners hsteady (hagree under) call _).bind
        (fun i => along_callListeners (hsteady i) call _) fun _ => .refl _
    | _ => exact .refl _
  | tracker name r =>
    cases r with
    | transition x => exact agree_transition hsteady hagree under name x
    | create => exact .refl _
    | emit event =>
      refine Agree.after (fun _ => along_get) fun s => Agree.after (fun _ => along_named _ _) fun index =>
        Agree.after (fun _ => along_tracker index) fun t => ?_
      exact (agree_emit hsteady (hagree under) index event).bind
        (fun i => along_emit (hsteady i) index event) fun _ => .refl _
    | ask question now on =>
      refine Agree.after (fun _ => along_get) fun s => Agree.after (fun _ => along_named _ _) fun index =>
        Agree.after (fun _ => along_tracker index) fun t => ?_
      change Agree under (askTracker (known under) index question now on) _
      rw [askTracker_congr]
      exact .refl _
    | _ => exact .refl _
  | _ => exact .refl _

theorem agree_reply (under : List Nat) (r : Request) :
    Agree under (reply (performUnder known under) r) (reply (perform respond) r) :=
  (agree_perform hsteady hagree under r).attempt.bind
    (fun i => Along.attempt (along_perform (hsteady i) (takes_steady (hsteady i)) r)) fun _ => .refl _

theorem agree_runScript (under : List Nat) :
    ∀ script, Agree under (runScript (performUnder known under) script)
      (runScript (perform respond) script)
  | [] => .refl _
  | step :: rest => by
    have ih := agree_runScript under rest
    have hperform : ∀ i r, (perform respond r).Along (Steady i) :=
      fun i => along_perform (hsteady i) (takes_steady (hsteady i))
    refine (agree_reply hsteady hagree under step.request).bind
      (fun i => along_reply (hperform i) _) fun answer => Agree.after (fun _ => along_see _) fun _ => ?_
    split
    · split
      · exact Agree.after (fun _ => along_throw _) fun _ => ih
      · exact ih
    · exact ih

end Requests

/-- Observers that know under which trackers they are called respond like others. -/
theorem agree_respond (depth : Nat) (under : List Nat) (c : ObserverCall) :
    Agree under (respondUnder depth under c) (respond depth c) := by
  induction depth generalizing under c with
  | zero => exact .refl _
  | succ depth ih =>
    refine Agree.after (fun _ => along_see _) fun _ => Agree.after (fun _ => along_get) fun s => ?_
    exact agree_runScript (fun i => steady_respond i depth) ih under _

end Act

namespace Session

/-- Requests that are made while nothing is announced are answered alike, and afterwards nothing is. -/
theorem stepBy_performUnder (depth : Nat) {s : Session} (hs : s.IsUnder []) (r : Request) :
    s.stepBy (Act.performUnder (Act.respondUnder depth) []) r =
        s.stepBy (Act.perform (Act.respond depth)) r ∧
      (s.stepBy (Act.perform (Act.respond depth)) r).2.IsUnder [] := by
  have hsteady := fun i => Act.steady_respond i depth
  have hs' : IsUnder [] { s with events := #[] } := hs
  have hagree := Act.agree_reply hsteady (Act.agree_respond depth) [] r _ hs'
  have hreply : IsUnder [] ((Act.reply (Act.perform (Act.respond depth)) r).ran
      { s with events := #[] }).2 := fun i =>
    (Act.along_reply (Act.along_perform (hsteady i) (Act.takes_steady (hsteady i))) r _).trans (hs' i)
  rw [stepBy, stepBy, hagree]
  generalize (Act.reply (Act.perform (Act.respond depth)) r).ran _ = ended at hreply
  rcases ended with ⟨_ | _, s'⟩
  · exact ⟨rfl, hreply⟩
  · exact ⟨rfl, hreply⟩

theorem runBy_performUnder (depth : Nat) {s : Session} (hs : s.IsUnder []) (rs : List Request) :
    s.runBy (Act.performUnder (Act.respondUnder depth) []) rs =
      s.runBy (Act.perform (Act.respond depth)) rs := by
  induction rs generalizing s with
  | nil => rfl
  | cons r rest ih =>
    obtain ⟨hstep, hs'⟩ := stepBy_performUnder depth hs r
    rw [runBy, runBy, hstep]
    exact congrArg _ (ih hs')

end Session

/-! ### What is refused as nested -/

theorem Refusal.code_ne_of_cause {r : Refusal} (h : r.cause ≠ .reentrant) :
    r.code ≠ .reentrantTransition := by
  obtain ⟨operation, cause⟩ := r
  cases cause with
  | reentrant => exact absurd rfl h
  | _ => exact nofun

/-- A transition is refused as nested just if it is, and its tracker has not been disposed of. -/
theorem Tracker.planNested_iff (t : Tracker) (nested : Bool) (x : Transition) :
    (t.planNested nested x).outcome.mapError Refusal.code = .error .reentrantTransition ↔
      nested = true ∧ t.disposed = false := by
  have hrefused (cause : Cause) : (Planning.plan (Planning.refuse x.name cause : Planning Unit)
      t.core).outcome.mapError Refusal.code = .error (Refusal.code ⟨x.name, cause⟩) := rfl
  rw [planNested]
  cases hd : t.disposed with
  | true =>
    rw [if_pos rfl, hrefused]
    simp [Refusal.code]
  | false =>
    cases nested with
    | true =>
      rw [if_neg (by simp), if_pos rfl, hrefused]
      simp [Refusal.code]
    | false =>
      rw [if_neg (by simp), if_neg (by simp)]
      refine iff_of_false (fun h => ?_) (by simp)
      cases hout : (x.plan t.config t.core).outcome with
      | ok =>
        rw [hout] at h
        cases h
      | error r =>
        rw [hout] at h
        have hown := ((Planning.explains_body t.config x).plan t.core).2 r hout
        exact Refusal.code_ne_of_cause hown (Except.error.inj h)

/-- A transition that is refused as nested plans nothing but log messages. -/
theorem Tracker.logs_of_nested (t : Tracker) (x : Transition) :
    ∀ step ∈ (t.planNested true x).steps, ∃ m, step = .log m := by
  rw [planNested]
  split
  · exact (Planning.Asks.refuse _ _).plan _
  · exact (Planning.Asks.refuse _ _).plan _

/-- In every run of a session, requests are answered as they are by observers that know which trackers they
are called under, however deeply they call each other, and whoever fails: just those transitions are refused
as nested whose tracker, not disposed of, is among them. One that is nested leaves all trackers as they are.
-/
theorem Session.refuses_nested_exactly :
    (∀ depth rs, runBy (Act.performUnder (Act.respondUnder depth) []) {} rs =
      runBy (Act.perform (Act.respond depth)) {} rs) ∧
    (∀ (t : Tracker) (nested : Bool) x,
      (t.planNested nested x).outcome.mapError Refusal.code = .error .reentrantTransition ↔
        nested = true ∧ t.disposed = false) ∧
    ∀ respond i (t : Tracker) x s,
      ((Act.carryOut respond i (t.planNested true x)).ran s).2.trackers = s.trackers := by
  refine ⟨fun depth => runBy_performUnder depth fun i => rfl, Tracker.planNested_iff, ?_⟩
  intro respond i t x s
  exact Act.along_carryOut (R := fun s s' => s'.trackers = s.trackers) (t.logs_of_nested x) s

end RadioOccupancy
