import RadioOccupancy.Proofs.Coherent
import RadioOccupancy.Proofs.Observation
import RadioOccupancy.Proofs.Session.Telling
import RadioOccupancy.Proofs.Turns

/-!
The report of what a radio did by itself, as subscribers hear of it.

    turns    |  switching  |     tx      |     rx      |
    steps    announce  note  announce  note  announce  note
    called      a  b            a  b            a  b

The segments of the turns are told one after the other, and the cursor follows each of them. A report comes to
its end just if no observer fails that is called on the way (`Act.ok_iff_noneFails`), and this is the only
thing that can keep it from that.
-/

namespace RadioOccupancy

/-! ### Observers that are called while steps are carried out -/

namespace Act

/-- An observer is called as `c` in the session `s'` while steps are carried out. What comes before has been
carried out without fail by then. -/
inductive CallsAmid (respond : Respond) (i : Nat) (c : ObserverCall) (s' : Session) :
    List Step → Session → Prop
  | announce {ns : List Notice} {rest : List Step} {s : Session} {t : Tracker} (ht : s.trackers[i]? = some t)
      (h : Calls respond i t c s' ns (s.modifyTracker i fun t => { t with announcing := t.announcing + 1 })) :
      CallsAmid respond i c s' (.announce ns :: rest) s
  | later {step : Step} {rest : List Step} {s s₁ : Session}
      (hstep : (carryOutStep respond i step).ran s = (.ok (), s₁)) (h : CallsAmid respond i c s' rest s₁) :
      CallsAmid respond i c s' (step :: rest) s

/-- No observer fails that is called while steps are carried out. -/
def NoneFails (respond : Respond) (i : Nat) (steps : List Step) (s : Session) : Prop :=
  ∀ c s', CallsAmid respond i c s' steps s → ((respond c).ran s').1 = .ok ()

variable {i : Nat} {respond known : Respond} {steps : List Step} {s s' : Session}

/-- Observers that respond alike wherever steps call them make no difference to the steps. -/
theorem ran_carryOutSteps_congr
    (h : ∀ c s', CallsAmid respond i c s' steps s → (known c).ran s' = (respond c).ran s') :
    (carryOutSteps known i steps).ran s = (carryOutSteps respond i steps).ran s := by
  induction steps generalizing s with
  | nil => rfl
  | cons step rest ih =>
    refine ran_bind_congr ?_ fun _ s₁ hstep => ih fun c s' hc => h c s' (.later hstep hc)
    cases step with
    | change | log => rfl
    | announce ns =>
      refine ran_tracker_bind_congr fun t ht => ran_bind_congr rfl fun _ s₁ hmark => ?_
      obtain ⟨-, rfl⟩ := Prod.mk.inj hmark
      have hgive : (giveNotices known i t ns).ran _ = (giveNotices respond i t ns).ran _ :=
        ran_giveNotices_congr fun c s' hc => h c s' (.announce ht hc)
      exact congrArg (fun told : Except Fault Unit × Session =>
        (told.1, told.2.modifyTracker i fun t => { t with announcing := t.announcing - 1 })) hgive

/-- Where no observer fails, nothing does. -/
theorem ok_of_noneFails (hr : ∀ c, (respond c).Along (KeepsLog i)) (hs : s.HasLog i)
    (h : NoneFails respond i steps s) : ∃ s', (carryOutSteps respond i steps).ran s = (.ok (), s') := by
  -- observers that respond alike, but whose failures are caught
  let known : Respond := fun c => attempt (respond c) >>= fun _ => pure ()
  have hran (c : ObserverCall) (s : Session) : (known c).ran s = (.ok (), ((respond c).ran s).2) := rfl
  have hknown (c : ObserverCall) : (known c).Unfailing i := fun s hs => ⟨(), _, hran c s, hr c s hs⟩
  obtain ⟨⟨⟩, s', hok, -⟩ := unfailing_carryOutSteps hknown steps s hs
  rw [ran_carryOutSteps_congr fun c s' hc => (hran c s').trans (Prod.ext (h c s' hc).symm rfl)] at hok
  exact ⟨s', hok⟩

theorem callListeners_append (call : ListenerCall) (first rest : List ObserverId) :
    callListeners respond call (first ++ rest) =
      (do callListeners respond call first; callListeners respond call rest) := by
  induction first with
  | nil => simp [callListeners]
  | cons id first ih => simp [callListeners, ih]

theorem callSubscribers_append (event : TraceEvent) (first rest : List Subscription) :
    callSubscribers respond i event (first ++ rest) =
      (do callSubscribers respond i event first; callSubscribers respond i event rest) := by
  induction first with
  | nil => simp [callSubscribers]
  | cons e first ih =>
    rw [List.cons_append, callSubscribers, callSubscribers, ih, bind_assoc]
    refine bind_congr fun t => ?_
    cases t.subscriptions.claim e <;> simp

/-- Notices that are given to the end have called nobody who fails. -/
theorem Calls.ok {before : Tracker} {c : ObserverCall} {ns : List Notice} {s₁ : Session}
    (h : Calls respond i before c s' ns s) (hok : (giveNotices respond i before ns).ran s = (.ok (), s₁)) :
    ((respond c).ran s').1 = .ok () := by
  induction h with
  | @listener s t call first rest id ns ht hid hc hfirst =>
    obtain ⟨⟨⟩, s₂, hnotice, -⟩ := ok_of_bind hok
    rw [giveNotice, ran_bind, ran_tracker ht, onward, hid, callListeners_append, ran_bind, hfirst] at hnotice
    obtain ⟨⟨⟩, s₃, hcall, -⟩ := ok_of_bind hnotice
    rw [hc, hcall]
  | @subscriber s s₁ t u event first rest e id subscriptions ns ht he hfirst hu hclaim hid hc hs' =>
    obtain ⟨⟨⟩, s₂, hnotice, -⟩ := ok_of_bind hok
    obtain ⟨heard, s₃, hemit, -⟩ := ok_of_bind hnotice
    rw [emit, ran_bind, ran_tracker ht, onward, he] at hemit
    obtain ⟨⟨⟩, s₄, hcalls, -⟩ := ok_of_bind hemit
    rw [callSubscribers_append, ran_bind, hfirst, onward, ran_callSubscribers_cons hu, hclaim] at hcalls
    dsimp only at hcalls
    rw [← hs', hid, ← ran_bind] at hcalls
    obtain ⟨⟨⟩, s₅, hcall, -⟩ := ok_of_bind hcalls
    rw [hc]
    exact congrArg Prod.fst hcall
  | @callback s d id ns hid hc hs' =>
    obtain ⟨⟨⟩, s₂, hnotice, -⟩ := ok_of_bind hok
    rw [giveNotice, hid] at hnotice
    rw [hc, hs', hnotice]
  | later hn h ih =>
    obtain ⟨⟨⟩, s₂, hn', hrest⟩ := ok_of_bind hok
    obtain ⟨-, rfl⟩ := Prod.mk.inj (hn.symm.trans hn')
    exact ih hrest

/-- Steps that are carried out to the end have called nobody who fails. -/
theorem CallsAmid.ok {c : ObserverCall} {s₁ : Session} (h : CallsAmid respond i c s' steps s)
    (hok : (carryOutSteps respond i steps).ran s = (.ok (), s₁)) : ((respond c).ran s').1 = .ok () := by
  induction h with
  | @announce ns rest s t ht h =>
    obtain ⟨⟨⟩, s₂, hstep, -⟩ := ok_of_bind hok
    rw [carryOutStep, ran_announce ns ht] at hstep
    obtain ⟨hgiven, -⟩ := Prod.mk.inj hstep
    exact h.ok (Prod.ext hgiven rfl)
  | later hstep h ih =>
    obtain ⟨⟨⟩, s₂, hstep', hrest⟩ := ok_of_bind hok
    obtain ⟨-, rfl⟩ := Prod.mk.inj (hstep.symm.trans hstep')
    exact ih hrest

/-- Steps are carried out to the end just if no observer fails that they call. -/
theorem ok_iff_noneFails (hr : ∀ c, (respond c).Along (KeepsLog i)) (hs : s.HasLog i) :
    (∃ s', (carryOutSteps respond i steps).ran s = (.ok (), s')) ↔ NoneFails respond i steps s :=
  ⟨fun ⟨_, hok⟩ _ _ hc => hc.ok hok, ok_of_noneFails hr hs⟩

end Act

/-! ### The report -/

namespace Report

variable {t u : Number} {segments : List Segment}

/-- All segments are told in which time passes. -/
theorem Joined.notices (h : Joined t segments u) :
    notices segments = (segments.map Segment.event).map .trace := by
  induction segments generalizing t with
  | nil => rfl
  | cons s rest ih =>
    obtain ⟨-, hlt, hrest⟩ := h
    have hs : s.isEmpty = false := decide_eq_false (Number.not_le_of_lt hlt)
    have ih := ih hrest
    rw [Report.notices] at ih ⊢
    rw [List.filter_cons_of_pos (by simp [hs]), List.map_cons, ih]
    rfl

end Report

/-- All of the radio's own activities have begun by the cursor, and none of their ends is undefined. -/
def Core.OwnBegun (core : Core) : Prop :=
  core.record.HasBegun core.cursor ∧ ∀ e ∈ core.record.ends, e.isNaN = false

theorem Core.Coherent.ownBegun {core : Core} (h : core.Coherent) : core.OwnBegun := by
  refine ⟨fun a ha => (h.begun a ha).1, fun e he => ?_⟩
  obtain ⟨a, ha, rfl⟩ := Record.mem_ends.1 he
  exact (Number.le_iff_rank.1 (h.ordered a ha)).2.1

namespace Session

variable {depth i : Nat} {s : Session} {t : Tracker} {now : Number}

open Act in
/-- A report during which no observer fails tells all segments of the turns, and leaves the cursor where these
end. -/
theorem own_report_of_noneFails (hs : s.HasLog i) (ht : s.trackers[i]? = some t) {segments : List Segment}
    {u : Number} (hturns : Report.Turns now t.core.record.activities t.core.cursor segments u)
    (h : NoneFails (respond depth) i (Planning.plan (Planning.reportOwn now) t.core).steps s) :
    ∃ s' t',
      (carryOut (respond depth) i (Planning.plan (Planning.reportOwn now) t.core)).ran s = (.ok u, s') ∧
      Tells (respond depth) i ((segments.map Segment.event).map .event) s s' ∧ s'.trackers[i]? = some t' ∧
        t'.core = { t.core with cursor := u } := by
  obtain ⟨s', hran⟩ := (ok_iff_noneFails (keepsLog_respond i depth) hs).2 h
  obtain ⟨houtcome, hcore, hnotices⟩ := (Planning.draws_reportOwn now t.core).plan
  obtain ⟨t', ht', hk⟩ := keeps_carryOutSteps (sparing_respond depth) ht hran
  obtain ⟨rfl, rfl⟩ := Report.turns_iff.1 hturns
  have htold := tells_steps (sparing_respond depth) ht (hnotices.trans hturns.joined.notices) hran
  refine ⟨s', t', ?_, htold, ht', hk.core.trans hcore⟩
  rw [ran_carryOut hran, houtcome]
  rfl

/-- In every session that requests lead to, and at each moment before, all activities of a tracker have begun
by the cursor. -/
theorem ownBegun_after (rs : List Request) (ht : (({} : Session).after rs).trackers[i]? = some t) :
    ∃ s₀ attempts, s₀.Starts i t.config ∧ Course i s₀ attempts (({} : Session).after rs) ∧ t.core.OwnBegun ∧
      ∀ a ∈ attempts, ∀ steps, steps <+: a.begun → (coreAfter steps a.tracker.core).OwnBegun := by
  obtain ⟨s₀, attempts, hstarts, hcourse, -, htrials⟩ := trials_after rs ht
  obtain ⟨hend, hmid⟩ := htrials.keeps_coherent
  exact ⟨s₀, attempts, hstarts, hcourse, hend.ownBegun,
    fun a ha steps hpre => (hmid a ha steps hpre).ownBegun⟩

/-- However the radio's own activities lie, and wherever the cursor stands, the turns of a report come to one
end, with three segments at most. These are complete if the cursor is not after now and all activities have
begun by it. If no observer fails, they are what is told, and their end is what the report answers and where
it leaves the cursor. In every session that requests lead to, and at each moment before, all activities have
begun by the cursor. -/
theorem own_report_complete :
    (∀ (core : Core) (now : Number), ∃ segments u,
      (∀ others v, Report.Turns now core.record.activities core.cursor others v ↔ others = segments ∧ v = u) ∧
      segments.length ≤ 3 ∧
      (core.cursor ≤ now → core.record.HasBegun core.cursor →
        Report.Complete core.record now core.cursor segments u) ∧
      ∀ (depth i : Nat) (s : Session) (t : Tracker), s.HasLog i → s.trackers[i]? = some t → t.core = core →
        Act.NoneFails (Act.respond depth) i (Planning.plan (Planning.reportOwn now) core).steps s →
        ∃ s' t',
          (Act.carryOut (Act.respond depth) i (Planning.plan (Planning.reportOwn now) core)).ran s =
            (.ok u, s') ∧
          Act.Tells (Act.respond depth) i ((segments.map Segment.event).map .event) s s' ∧
          s'.trackers[i]? = some t' ∧ t'.core = { core with cursor := u }) ∧
    ∀ (rs : List Request) (i : Nat) (t : Tracker), (({} : Session).after rs).trackers[i]? = some t →
      ∃ s₀ attempts, s₀.Starts i t.config ∧ Course i s₀ attempts (({} : Session).after rs) ∧ t.core.OwnBegun ∧
        ∀ a ∈ attempts, ∀ steps, steps <+: a.begun → (coreAfter steps a.tracker.core).OwnBegun := by
  refine ⟨fun core now => ?_, fun rs i t => ownBegun_after rs⟩
  have hturns : Report.Turns now core.record.activities core.cursor _ _ := Report.turns_iff.2 ⟨rfl, rfl⟩
  refine ⟨_, _, fun others v => Report.turns_iff, Report.length_ownSegments_le .., hturns.complete, ?_⟩
  rintro depth i s t hs ht rfl hnone
  exact own_report_of_noneFails hs ht hturns hnone

/-- A radio is switched to another channel at ten while it is receiving. A subscriber hears at sixty that it
was switching until thirty and receiving until fifty, where the cursor is left. -/
theorem own_report_of_retuned_radio :
    let on : Sensing := ⟨⟨0, 63⟩, none⟩
    let s := ({} : Session).after [.tracker "radio" (.create none {}),
      .tracker "radio" (.subscribe .stateChange "mac" false),
      .tracker "radio" (.transition (.receive 0 50 on)),
      .tracker "radio" (.transition (.retune 10 20 on))]
    ∃ t s' t', s.trackers[0]? = some t ∧ t.core.OwnBegun ∧
      (Act.carryOut (Act.respond 1) 0 (Planning.plan (Planning.reportOwn 60) t.core)).ran s = (.ok 50, s') ∧
      Act.Tells (Act.respond 1) 0
        [.event (.stateChange 10 20 .switching), .event (.stateChange 30 20 .rx)] s s' ∧
      s'.trackers[0]? = some t' ∧ t'.core = { t.core with cursor := 50 } ∧
      Report.Complete t.core.record 60 10 [⟨10, 30, .switching⟩, ⟨30, 50, .rx⟩] 50 := by
  intro on s
  let r : Record := { receiving := true, rx := ⟨0, 50⟩, switching := ⟨10, 30⟩, lastChange := 10 }
  have hany : (s.trackers[0]?.any fun t => t.core.record = r && t.core.cursor = 10 &&
      decide (t.log < s.logs.size) &&
      ((Act.carryOutSteps (Act.respond 1) 0
        (Planning.plan (Planning.reportOwn 60) t.core).steps).ran s).1.isOk) = true := by
    decide +kernel
  obtain ⟨t, ht, h⟩ := (Option.any_eq_true _ _).1 hany
  simp only [Bool.and_eq_true, decide_eq_true_iff] at h
  obtain ⟨⟨⟨hrecord, hcursor⟩, hlog⟩, hok⟩ := h
  have hlog : s.HasLog 0 := ⟨t, ht, hlog⟩
  have hnone := (Act.ok_iff_noneFails (Act.keepsLog_respond 0 1) hlog).1 ⟨_, Act.ok_of_isOk hok⟩
  obtain ⟨hreport, hbegun⟩ := own_report_complete
  obtain ⟨segments, u, hturns, -, hcomplete, hran⟩ := hreport t.core 60
  obtain ⟨-, -, -, -, hown, -⟩ := hbegun _ 0 t ht
  have hthese :
      Report.Turns 60 t.core.record.activities t.core.cursor [⟨10, 30, .switching⟩, ⟨30, 50, .rx⟩] 50 := by
    rw [hrecord, hcursor]
    exact .turns (by decide +kernel) (.turns (by decide +kernel) (.ends (by decide +kernel)))
  obtain ⟨rfl, rfl⟩ := (hturns _ _).1 hthese
  obtain ⟨s', t', hran, htells, ht', hcore⟩ := hran 1 0 s t hlog ht rfl hnone
  have hevents : ([⟨10, 30, .switching⟩, ⟨30, 50, .rx⟩] : List Segment).map Segment.event =
      [.stateChange 10 20 .switching, .stateChange 30 20 .rx] := by
    decide +kernel
  rw [hevents] at htells
  have hcomplete := hcomplete (by rw [hcursor]; decide +kernel) hown.1
  rw [hcursor] at hcomplete
  exact ⟨t, s', t', ht, hown, hran, htells, ht', hcore, hcomplete⟩

end Session

end RadioOccupancy
