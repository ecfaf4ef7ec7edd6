import RadioOccupancy.Proofs.Delivery
import RadioOccupancy.Proofs.Session.Metered
import RadioOccupancy.Proofs.Statistics
import RadioOccupancy.Proofs.Truth

/-!
Which events a call emits.

    transmit      state changes, then one event for each packet that is sent
    complete      state changes, then one for each packet that was received well
    lose          state changes, then one for each packet
    others        state changes
    refused       nothing

So what the events of calls are counted by kind comes to, is what the transitions say that were accepted
(`countP_events`).
-/

namespace RadioOccupancy

/-- A call emits state changes just as it tells of them. -/
theorem Call.stateChange?_events (c : Call) :
    c.events.filterMap TraceEvent.stateChange? = c.stateChanges := by
  have hnotice : ∀ n : Notice, n.event?.bind TraceEvent.stateChange? = n.stateChange? := by
    intro n
    cases n with
    | trace event => cases event <;> rfl
    | listeners | deliver => rfl
  rw [events, eventsOf, List.filterMap_filterMap]
  exact congrArg (fun f => List.filterMap f c.plan.notices) (funext hnotice)

namespace Transition

variable {config : Config} {core : Core} {x : Transition}

/-- How many packets a transition sends, for all stations together. -/
def packetsSent : Transition → Nat
  | .transmit _ _ ppdu .. => (ppdu.parts.map fun part => part.2.packets.length).sum
  | _ => 0

/-- How many packets a transition says were received well. -/
def packetsReceived : Transition → Nat
  | .completeReception _ _ _ _ _ statuses => statuses.count true
  | _ => 0

/-- How many packets a transition says were lost. -/
def packetsLost : Transition → Nat
  | .loseReception _ psdu _ => psdu.packets.length
  | _ => 0

/-- The packet events of a transition. -/
def packetEvents (x : Transition) : List TraceEvent :=
  match x with
  | .transmit _ _ ppdu _ vector _ =>
    ppdu.packets.map fun packet => .tx packet vector.mode vector.preamble vector.powerLevel
  | x => (x.ending?.map Ending.packets).getD []

/-- Steps emit nothing if no notice of them does. -/
theorem eventsOf_eq_nil {steps : List Step}
    (h : ∀ ns, .announce ns ∈ steps → ∀ n ∈ ns, n.event? = none) : eventsOf steps = [] := by
  rw [eventsOf, List.filterMap_eq_nil_iff]
  intro n hn
  obtain ⟨step, hstep, hn⟩ := List.mem_flatMap.1 hn
  cases step with
  | announce ns => exact h ns hstep n hn
  | change | log => cases hn

/-- Recording energy emits nothing. -/
theorem eventsOf_senseDeeds (now duration : Number) (on : Sensing) (isPrimary : Bool) :
    eventsOf (core.senseDeeds config now duration on isPrimary) = [] := by
  refine eventsOf_eq_nil fun ns hns n hn => ?_
  rcases Core.mem_senseDeeds hns with ⟨entry, he⟩ | ⟨remaining, hr⟩
  · cases he
  · obtain rfl := Step.announce.inj hr
    rw [List.mem_singleton.1 hn]
    rfl

theorem filterMap_trace (events : List TraceEvent) :
    (events.map Notice.trace).filterMap Notice.event? = events := by
  rw [List.filterMap_map]
  exact List.filterMap_some

/-- What is emitted by a transition that ends no reception, once it has reported. -/
theorem eventsOf_enactDeeds (h : x.ending? = none) :
    eventsOf (x.enactDeeds config core) = x.packetEvents := by
  cases x with
  | completeReception | loseReception => cases h
  | transmit now duration ppdu power vector on =>
    have hall : noticesOf (enactDeeds config core (.transmit now duration ppdu power vector on)) =
        (ppdu.packets.map fun packet =>
          TraceEvent.tx packet vector.mode vector.preamble vector.powerLevel).map .trace ++
            [.listeners ⟨.txStart, [duration, power]⟩] := by
      rw [List.map_map]
      exact noticesOf_announce _
    rw [eventsOf, hall, List.filterMap_append, filterMap_trace]
    exact List.append_nil _
  | abortReception now failure => cases failure <;> rfl
  | detectEnergy now duration on isPrimary =>
    rw [enactDeeds, eventsOf_append, eventsOf_senseDeeds]
    rfl
  | wakeUp now duration on isPrimary | powerOn now duration on isPrimary =>
    rw [enactDeeds, eventsOf_append]
    split
    · rw [eventsOf_senseDeeds]
      rfl
    · rfl
  | receive | retune | continueReception | fallAsleep | powerOff | flush => rfl

theorem eventsOf_ending (e : Ending) : eventsOf [.announce e.notices] = e.packets := by
  rw [eventsOf, noticesOf_announce, Ending.notices, List.filterMap_append, List.filterMap_append,
    filterMap_trace]
  exact List.append_nil _

/-- A transition emits state changes, and then its packet events. -/
theorem eventsOf_deeds (x : Transition) (config : Config) (core : Core) :
    ∃ reports : List TraceEvent, (∀ r ∈ reports, r.kind = .stateChange) ∧
      eventsOf (x.deeds config core) = reports ++ x.packetEvents := by
  obtain ⟨reports, hkind, hreports⟩ := x.noticesOf_reportDeeds config core
  have hreports : eventsOf (x.reportDeeds config core) = reports := by
    rw [eventsOf, hreports, filterMap_trace]
  refine ⟨reports, hkind, ?_⟩
  cases he : x.ending? with
  | some e =>
    have hpackets : x.packetEvents = e.packets := by
      cases x with
      | completeReception | loseReception =>
        obtain rfl := Option.some.inj he
        rfl
      | _ => cases he
    rw [deeds_of_ending he, closingDeeds, eventsOf_append, eventsOf_append, hreports, eventsOf_ending,
      hpackets]
    rw [show eventsOf [.change (.closed x.time)] = [] from rfl, List.append_nil]
  | none => rw [deeds, eventsOf_append, hreports, eventsOf_enactDeeds he]

/-! ### How many packets -/

theorem count_received (packets : List Packet) (statuses : List Bool)
    (h : statuses.length = packets.length) :
    ((packets.zip statuses).filter fun p => p.2).length = statuses.count true := by
  have hstatuses : (packets.zip statuses).map Prod.snd = statuses := List.map_snd_zip h.le
  rw [← List.countP_eq_length_filter]
  conv_rhs => rw [← hstatuses]
  rw [List.count, List.countP_map]
  refine List.countP_congr fun p _ => ?_
  simp

theorem countP_of_kind {events : List TraceEvent} {kind : TraceKind} (h : ∀ e ∈ events, e.kind = kind)
    (other : TraceKind) :
    (events.countP fun e => e.kind = other) = if kind = other then events.length else 0 := by
  split
  · next heq => exact List.countP_eq_length.2 fun e he => by simp [h e he, heq]
  · next hne => exact List.countP_eq_zero.2 fun e he => by simp [h e he, hne]

/-- If its arguments are valid, the packet events of a transition are as many as it says. -/
theorem countP_packetEvents (h : x.ArgumentsValid) :
    (x.packetEvents.countP fun e => e.kind = .tx) = x.packetsSent ∧
      (x.packetEvents.countP fun e => e.kind = .rxOk) = x.packetsReceived ∧
        (x.packetEvents.countP fun e => e.kind = .rxError) = x.packetsLost := by
  cases x with
  | transmit now duration ppdu power vector on =>
    rw [packetEvents]
    have hkind : ∀ e ∈ ppdu.packets.map fun packet =>
        TraceEvent.tx packet vector.mode vector.preamble vector.powerLevel, e.kind = .tx :=
      List.forall_mem_map.2 fun _ _ => rfl
    rw [countP_of_kind hkind, countP_of_kind hkind, countP_of_kind hkind, List.length_map]
    exact ⟨List.length_flatMap, rfl, rfl⟩
  | completeReception now psdu info vector primary statuses =>
    change (List.countP _ (((psdu.packets.zip statuses).filter fun p => p.2).map _)) = _ ∧ _
    have hkind : ∀ e ∈ ((psdu.packets.zip statuses).filter fun p => p.2).map fun p =>
        TraceEvent.rxOk p.1 info.snr vector.mode vector.preamble, e.kind = .rxOk :=
      List.forall_mem_map.2 fun _ _ => rfl
    have hcount := count_received psdu.packets statuses h
    refine ⟨countP_of_kind hkind _, (countP_of_kind hkind _).trans ?_, countP_of_kind hkind _⟩
    rw [if_pos rfl, List.length_map, hcount]
    rfl
  | loseReception now psdu snr =>
    have hkind : ∀ e ∈ psdu.packets.map fun packet => TraceEvent.rxError packet snr, e.kind = .rxError :=
      List.forall_mem_map.2 fun _ _ => rfl
    refine ⟨countP_of_kind hkind _, countP_of_kind hkind _, (countP_of_kind hkind _).trans ?_⟩
    rw [if_pos rfl, List.length_map]
    rfl
  | _ => exact ⟨rfl, rfl, rfl⟩

end Transition

/-! ### Calls -/

namespace Call

variable {config : Config} {c : Call}

/-- An accepted call emits state changes, and then the packet events of its transition. -/
theorem Accepted.events (ha : c.Accepted) :
    ∃ reports : List TraceEvent, (∀ r ∈ reports, r.kind = .stateChange) ∧
      c.events = reports ++ c.transition.packetEvents := by
  obtain ⟨-, hdeeds⟩ := Tracker.deeds_plan_of_accepted ha
  obtain ⟨reports, hkind, heq⟩ := c.transition.eventsOf_deeds c.tracker.config c.tracker.core
  refine ⟨reports, hkind, ?_⟩
  rw [← heq, ← hdeeds, eventsOf, noticesOf_deedsOf]
  rfl

/-- A refused one emits nothing. -/
theorem Fits.events_of_refused (h : c.Fits config) (ha : ¬c.Accepted) : c.events = [] := by
  have hquiet : c.plan.notices = [] := by
    cases hd : c.tracker.disposed with
    | true => exact (refused_of_disposed hd).2.2
    | false =>
      have hp : ¬c.transition.Permitted config c.tracker.core := fun hp => ha (h.accepted_iff.2 ⟨hd, hp⟩)
      obtain ⟨-, -, -, hns⟩ := Transition.plan_of_not_permitted hp
      rwa [plan_of_free h.configured h.free hd]
  exact congrArg (List.filterMap Notice.event?) hquiet

/-- How many packet events a call emits. -/
theorem Fits.countP_events (h : c.Fits config) (kind : TraceKind) (hkind : kind ≠ .stateChange) :
    (c.events.countP fun e => e.kind = kind) =
      if c.Accepted then c.transition.packetEvents.countP fun e => e.kind = kind else 0 := by
  split
  · next ha =>
    obtain ⟨reports, hreports, heq⟩ := ha.events
    rw [heq, List.countP_append, Transition.countP_of_kind hreports, if_neg hkind.symm, Nat.zero_add]
  · next ha =>
    rw [h.events_of_refused ha]
    rfl

end Call

/-- How many packets are sent, received or lost by the calls that are accepted. -/
def packetsBy (f : Transition → Nat) (calls : List Call) : Nat :=
  ((calls.filter fun c => c.Accepted).map fun c => f c.transition).sum

theorem packetsBy_cons (f : Transition → Nat) (c : Call) (calls : List Call) :
    packetsBy f (c :: calls) = (if c.Accepted then f c.transition else 0) + packetsBy f calls := by
  rw [packetsBy, packetsBy, List.filter_cons]
  by_cases ha : c.Accepted <;> simp [ha]

/-- The packet events of calls are counted by kind. -/
theorem countP_events {config : Config} {calls : List Call} (h : ∀ c ∈ calls, c.Fits config)
    {kind : TraceKind} (hkind : kind ≠ .stateChange) {f : Transition → Nat}
    (hf : ∀ x : Transition, x.ArgumentsValid →
      (x.packetEvents.countP fun e => e.kind = kind) = f x) :
    ((calls.flatMap Call.events).countP fun e => e.kind = kind) = packetsBy f calls := by
  induction calls with
  | nil => rfl
  | cons c rest ih =>
    obtain ⟨hc, hrest⟩ := List.forall_mem_cons.1 h
    rw [List.flatMap_cons, List.countP_append, ih hrest, hc.countP_events kind hkind, packetsBy_cons]
    congr 1
    split
    · next ha => exact hf _ (hc.of_accepted ha).1.arguments
    · rfl

end RadioOccupancy
