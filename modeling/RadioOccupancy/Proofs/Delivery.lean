import RadioOccupancy.Proofs.Effect
import RadioOccupancy.Proofs.Session.Telling

/-!
Every reception is ended once, and delivered at most once, whatever observers do.

    receive    sleep    wake    complete    receive    transmit    lose
       |-------- open -----------|             |-- open --|        refused

Whether a reception is open is a flag of the record, so it follows the transitions that take effect: each
end of a reception that takes effect has a beginning before it with no other end and no transmission
between (`Trials.ended_open`), and no more deliveries are begun than receptions (`Trials.deliveries_le`). If
no observer fails, an end that makes the reception known tells listeners, subscribers and the callback of
it in turn, each of them once (`Act.makesKnown_of_accepted`).
-/

namespace RadioOccupancy

namespace Transition

/-- The transition begins a reception. -/
def beginsReception : Transition → Bool
  | .receive .. => true
  | _ => false

/-- The transition ends the open reception. -/
def endsReception : Transition → Bool
  | .completeReception .. | .loseReception .. | .abortReception .. => true
  | _ => false

/-- The transition begins a transmission. -/
def beginsTransmission : Transition → Bool
  | .transmit .. => true
  | _ => false

/-- A reception is open after a transition if this begins one, or if one was open and the transition
neither ends it nor begins a transmission. -/
theorem receiving_update {x : Transition} {c : Change} (h : x.update? = some c) (r : Record) :
    (c.applyToRecord r).receiving =
      (x.beginsReception || r.receiving && !x.endsReception && !x.beginsTransmission) := by
  cases x with
  | continueReception | flush => cases h
  | _ =>
    obtain rfl := Option.some.inj h
    simp [Change.applyToRecord, beginsReception, endsReception, beginsTransmission]

end Transition

/-- A reception is open after these attempts: one of them has begun it, and since then no end of a
reception and no transmission has taken effect. -/
def OpenReception (attempts : List Attempt) : Prop :=
  ∃ before a since, attempts = before ++ a :: since ∧
    (a.tookEffect = true ∧ a.transition.beginsReception = true) ∧
      ∀ b ∈ since, b.tookEffect = true →
        b.transition.endsReception = false ∧ b.transition.beginsTransmission = false

/-- An attempt goes on with an open reception unless it ends it or begins a transmission. -/
theorem OpenReception.snoc {attempts : List Attempt} {b : Attempt} (h : OpenReception attempts)
    (hb : b.tookEffect = true →
      b.transition.endsReception = false ∧ b.transition.beginsTransmission = false) :
    OpenReception (attempts ++ [b]) := by
  obtain ⟨before, a, since, rfl, ha, hsince⟩ := h
  refine ⟨before, a, since ++ [b], by simp, ha, ?_⟩
  simp only [List.forall_mem_append, List.forall_mem_singleton]
  exact ⟨hsince, hb⟩

namespace Attempt

variable {a : Attempt} {attempts : List Attempt}

/-- After an attempt the flag says whether a reception is open, if it did before. -/
theorem IsPart.open_after (ha : a.IsPart)
    (h : a.tracker.core.record.receiving = true → OpenReception attempts)
    (hafter : a.coreAfter.record.receiving = true) : OpenReception (attempts ++ [a]) := by
  rcases ha.record with ⟨hnone, hsame⟩ | ⟨htook, -, c, hc, hrecord⟩
  · rw [hsame] at hafter
    refine (h hafter).snoc fun htook => ?_
    rw [hnone] at htook
    cases htook
  · rw [hrecord, Transition.receiving_update hc] at hafter
    cases hbegins : a.transition.beginsReception with
    | true => exact ⟨attempts, a, [], rfl, ⟨htook, hbegins⟩, by simp⟩
    | false =>
      simp only [hbegins, Bool.false_or, Bool.and_eq_true, Bool.not_eq_true'] at hafter
      exact (h hafter.1.1).snoc fun _ => ⟨hafter.1.2, hafter.2⟩

/-- An end of a reception takes effect only while one is open. -/
theorem IsPart.receiving_of_ends (ha : a.IsPart) (htook : a.tookEffect = true)
    (hends : a.transition.endsReception = true) : a.tracker.core.record.receiving = true := by
  rcases ha.record with ⟨hnone, -⟩ | ⟨-, hp, -⟩
  · rw [htook] at hnone
    cases hnone
  · have hstate := hp.state
    cases hx : a.transition with
    | completeReception | loseReception | abortReception =>
      rw [hx, Transition.MayBegin, Record.hasOpenReception, Bool.and_assoc, Bool.and_eq_true] at hstate
      exact hstate.1
    | _ =>
      rw [hx] at hends
      cases hends

end Attempt

/-- What comes before an attempt is trials of the tracker, up to what the attempt finds. -/
theorem Trials.before {config : Config} {start core : Core} {before after : List Attempt} {a : Attempt}
    (h : Trials config start (before ++ a :: after) core) :
    Trials config start before a.tracker.core ∧ a.IsPart := by
  generalize hall : before ++ a :: after = attempts at h
  induction h generalizing after with
  | nil => simp at hall
  | @snoc attempts b h hconfig hpart ih =>
    rcases List.eq_nil_or_concat after with rfl | ⟨after, c, rfl⟩
    · obtain ⟨rfl, hb⟩ := List.append_inj' hall rfl
      obtain rfl := List.singleton_inj.1 hb
      exact ⟨h, hpart⟩
    · rw [List.concat_eq_append, ← List.cons_append, ← List.append_assoc] at hall
      exact ih (List.append_inj' hall rfl).1

namespace Trials

variable {config : Config} {start core : Core} {attempts : List Attempt}

/-- Where the flag of an open reception is set, one has begun and is still open. -/
theorem open_of_receiving (h : Trials config start attempts core)
    (hstart : start.record.receiving = false) (hopen : core.record.receiving = true) :
    OpenReception attempts := by
  induction h with
  | nil =>
    rw [hstart] at hopen
    cases hopen
  | snoc _ _ hpart ih => exact hpart.open_after ih hopen

/-- An end of a reception takes effect only after the beginning of one that is still open. -/
theorem ended_open {before after : List Attempt} {a : Attempt}
    (h : Trials config start (before ++ a :: after) core) (hstart : start.record.receiving = false)
    (htook : a.tookEffect = true) (hends : a.transition.endsReception = true) :
    OpenReception before := by
  obtain ⟨hbefore, hpart⟩ := h.before
  exact hbefore.open_of_receiving hstart (hpart.receiving_of_ends htook hends)

end Trials

/-! ### Deliveries -/

/-- What is delivered by a notice. -/
def Notice.delivery? : Notice → Option Delivery
  | .deliver d => some d
  | .listeners _ | .trace _ => none

/-- What is delivered in steps. -/
def deliveriesOf (steps : List Step) : List Delivery :=
  (noticesOf steps).filterMap Notice.delivery?

/-- The deliveries that an attempt begins. Each of them calls one callback at most: the one that is set for
it, if none of those that are told before it fails. -/
def Attempt.deliveries (a : Attempt) : List Delivery :=
  deliveriesOf a.begun

/-- How an end of a reception is made known. -/
structure Ending where
  /-- what listeners hear -/
  method : ListenerMethod
  /-- what subscribers hear of the packets -/
  packets : List TraceEvent
  delivery : Delivery

/-- Listeners are told first, then subscribers, and the callback last. -/
def Ending.notices (e : Ending) : List Notice :=
  [.listeners ⟨e.method, []⟩] ++ e.packets.map .trace ++ [.deliver e.delivery]

/-- How a transition makes the end of a reception known, if it does. -/
def Transition.ending? : Transition → Option Ending
  | .completeReception _ psdu info vector _ statuses =>
    let received := (psdu.packets.zip statuses).filter fun (_, received) => received
    some
      { method := .rxEndOk
        packets := received.map fun (packet, _) =>
          .rxOk packet info.snr vector.mode vector.preamble
        delivery := .ok psdu info vector statuses }
  | .loseReception _ psdu snr =>
    some
      { method := .rxEndError
        packets := psdu.packets.map fun packet => .rxError packet snr
        delivery := .error psdu }
  | _ => none

theorem Ending.delivery_notices (e : Ending) : e.notices.filterMap Notice.delivery? = [e.delivery] := by
  have hpackets : (e.packets.map Notice.trace).filterMap Notice.delivery? = [] := by
    rw [List.filterMap_map]
    exact List.filterMap_eq_nil_iff.2 fun _ _ => rfl
  rw [notices, List.filterMap_append, List.filterMap_append, hpackets]
  rfl

theorem deliveriesOf_append (steps more : List Step) :
    deliveriesOf (steps ++ more) = deliveriesOf steps ++ deliveriesOf more := by
  rw [deliveriesOf, noticesOf_append, List.filterMap_append]
  rfl

theorem deliveriesOf_deedsOf (steps : List Step) : deliveriesOf (deedsOf steps) = deliveriesOf steps := by
  rw [deliveriesOf, noticesOf_deedsOf]
  rfl

/-- What begins some steps delivers nothing if they do not. -/
theorem deliveriesOf_of_isPrefix {steps more : List Step} (h : steps <+: more)
    (hnone : deliveriesOf more = []) : deliveriesOf steps = [] := by
  obtain ⟨rest, rfl⟩ := h
  rw [deliveriesOf_append, List.append_eq_nil_iff] at hnone
  exact hnone.1

/-- Steps deliver nothing if no notice of them does. -/
theorem deliveriesOf_eq_nil {steps : List Step}
    (h : ∀ ns, .announce ns ∈ steps → ∀ n ∈ ns, n.delivery? = none) : deliveriesOf steps = [] := by
  rw [deliveriesOf, List.filterMap_eq_nil_iff]
  intro n hn
  obtain ⟨step, hstep, hn⟩ := List.mem_flatMap.1 hn
  cases step with
  | announce ns => exact h ns hstep n hn
  | change | log => cases hn

namespace Transition

variable {config : Config} {core : Core} {x : Transition}

theorem receivedNotices_eq (psdu : Psdu) (info : SignalInfo) (vector : TxVector)
    (statuses : List Bool) :
    receivedNotices psdu info vector statuses =
      (((psdu.packets.zip statuses).filter fun (_, received) => received).map fun (packet, _) =>
        TraceEvent.rxOk packet info.snr vector.mode vector.preamble).map Notice.trace := by
  rw [receivedNotices, List.map_map]
  induction psdu.packets.zip statuses with
  | nil => rfl
  | cons p rest ih =>
    obtain ⟨packet, received⟩ := p
    cases received <;> simp [ih]

theorem endsReception_of_ending {e : Ending} (h : x.ending? = some e) : x.endsReception = true := by
  cases x with
  | completeReception | loseReception => rfl
  | _ => cases h

/-- Reports deliver nothing. -/
theorem deliveriesOf_reportDeeds (x : Transition) : deliveriesOf (x.reportDeeds config core) = [] := by
  refine deliveriesOf_eq_nil fun ns hns n hn => ?_
  rcases mem_reportDeeds hns with ⟨t, ht⟩ | ⟨s, hs⟩
  · cases ht
  · obtain rfl := Step.announce.inj hs
    rw [List.mem_singleton.1 hn]
    rfl

/-- The deeds of an end of a reception until it is closed. -/
def closingDeeds (config : Config) (core : Core) (x : Transition) : List Step :=
  x.reportDeeds config core ++ [.change (.closed x.time)]

/-- An end that is made known closes the reception first. -/
theorem deeds_of_ending {e : Ending} (h : x.ending? = some e) :
    x.deeds config core = x.closingDeeds config core ++ [.announce e.notices] := by
  have henact : x.enactDeeds config core = [.change (.closed x.time), .announce e.notices] := by
    cases x with
    | completeReception =>
      obtain rfl := Option.some.inj h
      simp [enactDeeds, receivedNotices_eq, Ending.notices, time]
    | loseReception =>
      obtain rfl := Option.some.inj h
      simp [enactDeeds, lostNotices, Ending.notices, time]
    | _ => cases h
  rw [deeds, henact, closingDeeds, List.append_assoc]
  rfl

theorem deliveriesOf_closingDeeds (x : Transition) : deliveriesOf (x.closingDeeds config core) = [] := by
  rw [closingDeeds, deliveriesOf_append, deliveriesOf_reportDeeds]
  rfl

theorem writeRecord_closingDeeds (x : Transition) : writeRecord (x.closingDeeds config core) = true := by
  rw [closingDeeds, writeRecord_append]
  exact Bool.or_true _

/-- Recording energy delivers nothing. -/
theorem deliveriesOf_senseDeeds (now duration : Number) (on : Sensing) (isPrimary : Bool) :
    deliveriesOf (core.senseDeeds config now duration on isPrimary) = [] := by
  refine deliveriesOf_eq_nil fun ns hns n hn => ?_
  rcases Core.mem_senseDeeds hns with ⟨entry, he⟩ | ⟨remaining, hr⟩
  · cases he
  · obtain rfl := Step.announce.inj hr
    rw [List.mem_singleton.1 hn]
    rfl

/-- Only ends that are made known deliver anything. -/
theorem deliveriesOf_deeds (h : x.ending? = none) : deliveriesOf (x.deeds config core) = [] := by
  rw [deeds, deliveriesOf_append, deliveriesOf_reportDeeds, List.nil_append]
  cases x with
  | completeReception | loseReception => cases h
  | transmit =>
    refine deliveriesOf_eq_nil fun ns hns n hn => ?_
    obtain rfl : ns = _ := by simpa [enactDeeds] using hns
    rcases List.mem_append.1 hn with hn | hn
    · obtain ⟨packet, -, rfl⟩ := List.mem_map.1 hn
      rfl
    · rw [List.mem_singleton.1 hn]
      rfl
  | abortReception now failure => cases failure <;> rfl
  | detectEnergy now duration on isPrimary =>
    rw [enactDeeds, deliveriesOf_append, deliveriesOf_senseDeeds]
    rfl
  | wakeUp now duration on isPrimary | powerOn now duration on isPrimary =>
    rw [enactDeeds, deliveriesOf_append]
    split
    · rw [deliveriesOf_senseDeeds]
      rfl
    · rfl
  | receive | retune | continueReception | fallAsleep | powerOff | flush => rfl

end Transition

namespace Attempt

variable {a : Attempt}

/-- What is begun is what is done, and one more deed at most. -/
theorem deedsOf_begun (a : Attempt) :
    deedsOf a.begun = deedsOf a.done ∨ ∃ step, deedsOf a.begun = deedsOf a.done ++ [step] := by
  rw [begun, deedsOf_append]
  cases a.broken with
  | none => exact Or.inl (List.append_nil _)
  | some step =>
    cases hstep : step.isDeed with
    | true => exact Or.inr ⟨step, by simp [deedsOf, hstep]⟩
    | false => exact Or.inl (by simp [deedsOf, hstep])

/-- An attempt delivers one thing at most, and only if it has ended a reception. -/
theorem IsPart.deliveries (ha : a.IsPart) :
    a.deliveries = [] ∨
      a.deliveries.length = 1 ∧ a.tookEffect = true ∧ a.transition.endsReception = true := by
  rw [Attempt.deliveries, ← deliveriesOf_deedsOf, tookEffect, ← writeRecord_deedsOf]
  rcases ha.deeds with hnil | ⟨-, -, hds⟩
  · exact Or.inl (by rw [hnil]; rfl)
  · cases he : a.transition.ending? with
    | none => exact Or.inl (deliveriesOf_of_isPrefix hds (Transition.deliveriesOf_deeds he))
    | some e =>
      rw [Transition.deeds_of_ending he] at hds
      rcases prefix_append_cases hds with hpre | ⟨rest, hrest, hpre⟩
      · exact Or.inl (deliveriesOf_of_isPrefix hpre (Transition.deliveriesOf_closingDeeds _))
      rcases List.prefix_cons_iff.1 hpre with rfl | ⟨more, rfl, hmore⟩
      · exact Or.inl (by rw [hrest, List.append_nil, Transition.deliveriesOf_closingDeeds])
      · rw [List.prefix_nil.1 hmore] at hrest
        refine Or.inr ⟨?_, ?_, Transition.endsReception_of_ending he⟩
        · rw [hrest, deliveriesOf_append, Transition.deliveriesOf_closingDeeds, deliveriesOf,
            noticesOf_announce, Ending.delivery_notices]
          rfl
        -- the announcement may be the step that is broken off, but not the change before it
        · rcases a.deedsOf_begun with hsame | ⟨step, hstep⟩
          · rw [← hsame, hrest, writeRecord_append, Transition.writeRecord_closingDeeds]
            rfl
          · rw [hrest] at hstep
            rw [← (List.append_inj' hstep rfl).1, Transition.writeRecord_closingDeeds]

end Attempt

/-- What is delivered, and a reception that is still open, come to no more than the receptions that have
begun. -/
theorem Trials.deliveries_le {config : Config} {start core : Core} {attempts : List Attempt}
    (h : Trials config start attempts core) (hstart : start.record.receiving = false) :
    (attempts.flatMap Attempt.deliveries).length + (if core.record.receiving then 1 else 0) ≤
      attempts.countP fun a => a.tookEffect && a.transition.beginsReception := by
  induction h with
  | nil => simp [hstart]
  | @snoc attempts a h hconfig hpart ih =>
    simp only [List.flatMap_append, List.flatMap_singleton, List.length_append, List.countP_append,
      List.countP_singleton]
    rcases hpart.record with ⟨hnone, hsame⟩ | ⟨htook, -, c, hc, hrecord⟩
    · rcases hpart.deliveries with hnil | ⟨-, htook, -⟩
      · simpa [hnil, hsame, hnone] using ih
      · rw [hnone] at htook
        cases htook
    · have hafter := hrecord ▸ Transition.receiving_update hc a.tracker.core.record
      rw [htook, Bool.true_and]
      rcases hpart.deliveries with hnil | ⟨hone, -, hends⟩
      · rw [hnil]
        grind
      · have hopen := hpart.receiving_of_ends htook hends
        grind

/-! ### What an end tells if no observer fails -/

/-- What an end of a reception tells the observers of a tracker: each listener, then the subscribers of
each packet event, and then the callback, if one is set. -/
def Ending.tellings (e : Ending) (t : Tracker) : List Telling :=
  t.listeners.members.map (fun id => .call (.listener id ⟨e.method, []⟩)) ++ e.packets.map .event ++
    (t.callbackFor e.delivery).toList.map fun id => .call (.delivery id e.delivery)

/-- Reports tell of state changes only. -/
theorem Transition.noticesOf_reportDeeds (x : Transition) (config : Config) (core : Core) :
    ∃ reports : List TraceEvent, (∀ r ∈ reports, r.kind = .stateChange) ∧
      noticesOf (x.reportDeeds config core) = reports.map .trace := by
  have hall : ∀ steps : List Step, (∀ step ∈ steps,
      (∃ t, step = .change (.reported t)) ∨ ∃ s : Segment, step = .announce [.trace s.event]) →
        ∃ reports : List TraceEvent, (∀ r ∈ reports, r.kind = .stateChange) ∧
          noticesOf steps = reports.map .trace := by
    intro steps
    induction steps with
    | nil => exact fun _ => ⟨[], by simp, rfl⟩
    | cons step rest ih =>
      intro h
      obtain ⟨hstep, hrest⟩ := List.forall_mem_cons.1 h
      obtain ⟨reports, hkind, heq⟩ := ih hrest
      rw [show step :: rest = [step] ++ rest from rfl, noticesOf_append, heq]
      rcases hstep with ⟨t, rfl⟩ | ⟨s, rfl⟩
      · exact ⟨reports, hkind, rfl⟩
      · exact ⟨s.event :: reports, List.forall_mem_cons.2 ⟨rfl, hkind⟩, by simp [noticesOf_announce]⟩
  exact hall _ fun _ => mem_reportDeeds

/-- Between two sessions state changes are told at most, then the open reception of a tracker is closed at
`now`, and then its end is told to whoever observes the tracker at that moment. -/
def Act.MakesKnown (respond : Respond) (i : Nat) (t : Tracker) (now : Number) (e : Ending)
    (s s' : Session) : Prop :=
  ∃ (reports : List TraceEvent) (s₁ : Session) (u : Tracker),
    (∀ r ∈ reports, r.kind = .stateChange) ∧ Tells respond i (reports.map .event) s s₁ ∧
      s₁.trackers[i]? = some u ∧ u.core.record = t.core.record ∧
        Tells respond i (e.tellings u)
          (s₁.modifyTracker i fun t => { t with core := (Change.closed now).apply t.core }) s'

/-- If no observer fails, an end that is accepted and has something to make known does so. -/
theorem Act.makesKnown_of_accepted {respond : Respond} {i : Nat} {s s' : Session} {t : Tracker}
    {x : Transition} {e : Ending} (hr : ∀ c, (respond c).Along (Spares i))
    (ht : s.trackers[i]? = some t) (he : x.ending? = some e) (ha : (t.plan x).outcome = .ok ())
    (hcall : (carryOutSteps respond i (t.plan x).steps).ran s = (.ok (), s')) :
    MakesKnown respond i t x.time e s s' := by
  have hds := (Tracker.deeds_plan_of_accepted ha).2
  rw [Transition.deeds_of_ending he, Transition.closingDeeds, List.append_assoc] at hds
  obtain ⟨xs, ys, hsteps, hxs, hys⟩ := deedsOf_eq_append_cons hds
  have hannounce : deedsOf ys = [] ++ .announce e.notices :: [] := hys
  obtain ⟨ls, ls', rfl, hls, hls'⟩ := deedsOf_eq_append_cons hannounce
  obtain ⟨reports, hkind, hreports⟩ := x.noticesOf_reportDeeds t.config t.core
  rw [← hxs, noticesOf_deedsOf] at hreports
  -- the reports, the closing, log messages, the announcement, and log messages again
  rw [hsteps, carryOutSteps_append] at hcall
  obtain ⟨⟨⟩, s₁, hreported, hcall⟩ := ok_of_bind hcall
  obtain ⟨⟨⟩, s₂, hclosed, hcall⟩ := ok_of_bind hcall
  rw [carryOutSteps_append] at hcall
  obtain ⟨⟨⟩, s₃, hlogged, hcall⟩ := ok_of_bind hcall
  obtain ⟨⟨⟩, s₄, hannounced, hlogged'⟩ := ok_of_bind hcall
  obtain ⟨u, hu, hk⟩ := keeps_carryOutSteps hr ht hreported
  obtain ⟨-, rfl⟩ := Prod.mk.inj hclosed
  obtain ⟨hquiet, hsame⟩ := tells_logs hls hlogged
  have hu' := getElem?_modifyTracker hu fun t => { t with core := (Change.closed x.time).apply t.core }
  rw [← hsame] at hu'
  refine ⟨reports, s₁, u, hkind, tells_steps hr ht hreports hreported, hu, ?_, ?_⟩
  · rw [hk.core, ← coreAfter_deedsOf, hxs, Transition.coreAfter_reportDeeds]
  · have htold := (hquiet.append (tells_announce hu' hannounced)).append (tells_logs hls' hlogged').1
    rw [List.nil_append, List.append_nil] at htold
    exact htold

end RadioOccupancy
