import RadioOccupancy.Proofs.Subscriptions
import RadioOccupancy.Proofs.Transition
import RadioOccupancy.Session.Reply
import RadioOccupancy.Tracker.Basic

/-!
Who hears of what, if observers only listen.

    told:      trace tx     listeners rxStart     trace tx
    entries:   mac once     -                     -
    called:    mac          mac                   -

While observers do nothing, an event is heard by everyone that is subscribed to its kind, and ends their
subscriptions for one event (`Subscriptions.claimAll_spec`). So who is called when a tracker tells things, and
who will be called afterwards, follows from its observers and from what it tells. Events of one kind do not
matter for those of another. What a tracker tells besides state changes is heard by its `Audience`, and that
is the same whether there are state changes in between or not (`Tracker.heard`).
-/

namespace RadioOccupancy

namespace Subscriptions

/-- The entry is called when its turn comes. -/
def heeds (s : Subscriptions) (e : Subscription) : Bool :=
  !(e.once && s.spent.contains e.serial)

/-- The entries that are called when their turn comes. -/
def attentive (s : Subscriptions) : List Subscription :=
  s.entries.filter s.heeds

/-- Gets entries ready to be called in turn: the subscriptions afterwards, and who is called. -/
def claimAll (s : Subscriptions) : List Subscription → Subscriptions × List Subscriber
  | [] => (s, [])
  | e :: rest =>
    match s.claim e with
    | some s' => ((s'.claimAll rest).1, e.subscriber :: (s'.claimAll rest).2)
    | none => s.claimAll rest

variable {s : Subscriptions} {e : Subscription}

theorem claim_of_spent (h : e.once = true) (hspent : e.serial ∈ s.spent) : s.claim e = none := by
  rw [claim, h, if_neg (by simp), if_pos (List.contains_iff_mem.2 hspent)]

theorem claim_of_unspent (h : e.once = true) (hspent : e.serial ∉ s.spent) :
    s.claim e = some { s.removeSerial e.serial with spent := e.serial :: s.spent } := by
  rw [claim, h, if_neg (by simp), if_neg (by simpa using hspent)]

/-- Other entries are called after an entry as they are before it. -/
theorem heeds_cons_of_ne {f : Subscription} {n : Nat} (hne : f.serial ≠ n) (entries : List Subscription)
    (next : Nat) : heeds ⟨entries, next, n :: s.spent⟩ f = s.heeds f := by
  simp [heeds, hne]

/-- An entry for one event is not called any more after its turn. -/
theorem attentive_claim (hs : s.Sound) (he : e ∈ s.entries) (honce : e.once = true) :
    attentive { s.removeSerial e.serial with spent := e.serial :: s.spent } =
      s.attentive.filter fun f => !(f == e) := by
  rw [attentive, attentive, List.filter_filter]
  change (s.entries.filter fun f => f.serial != e.serial).filter _ = _
  rw [List.filter_filter]
  refine List.filter_congr fun f hf => ?_
  by_cases hserial : f.serial = e.serial
  · obtain rfl := List.inj_on_of_nodup_map hs.nodup hf he hserial
    simp
  · have hne : f ≠ e := fun h => hserial (congrArg _ h)
    rw [heeds_cons_of_ne hserial]
    rw [bne_iff_ne.2 hserial, beq_false_of_ne hne, Bool.and_true]
    rfl

/-- The subscriptions after the turn of an entry. -/
def afterTurn (s : Subscriptions) (e : Subscription) : Subscriptions :=
  (s.claim e).getD s

theorem claimAll_cons (s : Subscriptions) (e : Subscription) (rest : List Subscription) :
    s.claimAll (e :: rest) = (((s.afterTurn e).claimAll rest).1,
      (if (s.claim e).isSome then [e.subscriber] else []) ++ ((s.afterTurn e).claimAll rest).2) := by
  rw [claimAll, afterTurn]
  cases s.claim e <;> rfl

/-- An entry is called in its turn if it can be, and if it is for one event it is not called any more. Nothing
changes for the others. -/
theorem turn_spec (hs : s.Sound) (he : e ∈ s.entries) :
    (s.afterTurn e).Sound ∧ (s.claim e).isSome = s.heeds e ∧
      (s.afterTurn e).attentive = s.attentive.filter (fun f => !(f.once && f == e)) ∧
      ∀ f, f.serial ≠ e.serial →
        (f ∈ s.entries → f ∈ (s.afterTurn e).entries) ∧ (s.afterTurn e).heeds f = s.heeds f := by
  cases honce : e.once with
  | false =>
    rw [afterTurn, claim_of_lasting honce, heeds, honce]
    refine ⟨hs, rfl, (List.filter_eq_self.2 fun f _ => ?_).symm, fun f _ => ⟨id, rfl⟩⟩
    by_cases hf : f = e
    · rw [hf, honce]
      rfl
    · simp [hf]
  | true =>
    by_cases hspent : e.serial ∈ s.spent
    · rw [afterTurn, claim_of_spent honce hspent]
      refine ⟨hs, by simp [heeds, honce, hspent], (List.filter_eq_self.2 fun f hf => ?_).symm,
        fun f _ => ⟨id, rfl⟩⟩
      -- the entry itself cannot be called any more, so it is none of these
      have hne : f ≠ e := by
        rintro rfl
        simpa [heeds, honce, hspent] using (List.mem_filter.1 hf).2
      simp [hne]
    · have hclaim := claim_of_unspent honce hspent
      have hsound := hs.claim hclaim
      rw [afterTurn, hclaim]
      refine ⟨hsound, by simp [heeds, honce, hspent], ?_, fun f hne => ⟨fun hf => ?_, ?_⟩⟩
      · refine (attentive_claim hs he honce).trans (List.filter_congr fun f _ => ?_)
        by_cases hf : f = e
        · rw [hf, honce, Bool.true_and]
        · simp [hf]
      · exact List.mem_filter.2 ⟨hf, bne_iff_ne.2 hne⟩
      · exact heeds_cons_of_ne hne _ _

/-- While observers only listen, each entry on a list is called that can be, and those for one event are not
called any more. -/
theorem claimAll_spec (hs : s.Sound) {l : List Subscription} (hl : (l.map Subscription.serial).Nodup)
    (hmem : ∀ e ∈ l, e ∈ s.entries) :
    (s.claimAll l).1.Sound ∧
      (s.claimAll l).1.attentive = s.attentive.filter (fun f => !(f.once && l.contains f)) ∧
      (s.claimAll l).2 = (l.filter s.heeds).map Subscription.subscriber := by
  induction l generalizing s with
  | nil => exact ⟨hs, by simp [claimAll], rfl⟩
  | cons e rest ih =>
    rw [List.map_cons, List.nodup_cons] at hl
    rw [List.forall_mem_cons] at hmem
    obtain ⟨hturn, hcalled, hattentive, hothers⟩ := turn_spec hs hmem.1
    have hne : ∀ f ∈ rest, f.serial ≠ e.serial := fun f hf heq => hl.1 (List.mem_map.2 ⟨f, hf, heq⟩)
    obtain ⟨hsound, hattentive', hcalled'⟩ := ih hturn hl.2 fun f hf =>
      (hothers f (hne f hf)).1 (hmem.2 f hf)
    rw [claimAll_cons]
    refine ⟨hsound, ?_, ?_⟩
    · rw [hattentive', hattentive, List.filter_filter]
      refine List.filter_congr fun f _ => ?_
      rw [List.contains_cons, ← Bool.not_or, ← Bool.and_or_distrib_left, Bool.or_comm]
    · have hrest : rest.filter (s.afterTurn e).heeds = rest.filter s.heeds :=
        List.filter_congr fun f hf => (hothers f (hne f hf)).2
      rw [hcalled, hcalled', hrest, List.filter_cons]
      cases s.heeds e <;> rfl

/-- While observers only listen, an event is heard by everyone that is subscribed to its kind and can be
called, and ends their subscriptions for one event. -/
theorem claimAll_ofKind (hs : s.Sound) (kind : TraceKind) :
    (s.claimAll (s.ofKind kind)).1.Sound ∧
      (s.claimAll (s.ofKind kind)).1.attentive =
        s.attentive.filter (fun e => !(e.once && decide (e.kind = kind))) ∧
      (s.claimAll (s.ofKind kind)).2 =
        (s.attentive.filter fun e => e.kind = kind).map Subscription.subscriber := by
  obtain ⟨hsound, hattentive, hcalled⟩ := claimAll_spec hs (l := s.ofKind kind)
    (hs.nodup.sublist (List.filter_sublist.map _)) fun e he => List.mem_of_mem_filter he
  refine ⟨hsound, ?_, ?_⟩
  · rw [hattentive]
    refine List.filter_congr fun e he => ?_
    have hmem : (s.ofKind kind).contains e = decide (e.kind = kind) := by
      rw [Bool.eq_iff_iff, List.contains_iff_mem, ofKind, List.mem_filter]
      exact and_iff_right (List.mem_of_mem_filter he)
    rw [hmem]
  · rw [hcalled, ofKind, attentive, List.filter_comm]

end Subscriptions

/-! ### Trackers -/

/-- The call to a subscriber, if that is an observer. -/
def Subscriber.call? (event : TraceEvent) : Subscriber → Option ObserverCall
  | .observer id => some (.trace id event)
  | .collector _ => none

/-- The call tells of something else than a state change. -/
def ObserverCall.isTelling : ObserverCall → Bool
  | .trace _ (.stateChange ..) => false
  | _ => true

namespace Tracker

/-- A tracker after a notice, if observers only listen. -/
def notified (t : Tracker) : Notice → Tracker
  | .trace event =>
    { t with subscriptions := (t.subscriptions.claimAll (t.subscriptions.ofKind event.kind)).1 }
  | .listeners _ | .deliver _ => t

/-- Who is called on a notice. -/
def callsOn (t : Tracker) : Notice → List ObserverCall
  | .listeners call => t.listeners.members.map (.listener · call)
  | .trace event =>
    (t.subscriptions.claimAll (t.subscriptions.ofKind event.kind)).2.filterMap (·.call? event)
  | .deliver delivery => (t.callbackFor delivery).toList.map (.delivery · delivery)

/-- Who is called on notices in turn. -/
def callsOnAll : Tracker → List Notice → List ObserverCall
  | _, [] => []
  | t, n :: rest => t.callsOn n ++ (t.notified n).callsOnAll rest

end Tracker

/-- The observers that hear of something else than state changes. -/
structure Audience where
  listeners : List ObserverId
  okCallback : Option ObserverId
  errorCallback : Option ObserverId
  entries : List Subscription

namespace Audience

/-- An audience after a notice. -/
def notified (a : Audience) : Notice → Audience
  | .trace event => { a with entries := a.entries.filter fun e => !(e.once && decide (e.kind = event.kind)) }
  | .listeners _ | .deliver _ => a

/-- Who of an audience is called on a notice. -/
def callsOn (a : Audience) : Notice → List ObserverCall
  | .listeners call => a.listeners.map (.listener · call)
  | .trace event => (a.entries.filter fun e => e.kind = event.kind).filterMap (·.subscriber.call? event)
  | .deliver (.ok psdu info vector statuses) =>
    a.okCallback.toList.map (.delivery · (.ok psdu info vector statuses))
  | .deliver (.error psdu) => a.errorCallback.toList.map (.delivery · (.error psdu))

/-- Who is called on notices in turn. -/
def callsOnAll : Audience → List Notice → List ObserverCall
  | _, [] => []
  | a, n :: rest => a.callsOn n ++ (a.notified n).callsOnAll rest

end Audience

namespace Tracker

/-- Who hears of something else than state changes from a tracker. -/
def audience (t : Tracker) : Audience where
  listeners := t.listeners.members
  okCallback := t.okCallback
  errorCallback := t.errorCallback
  entries := t.subscriptions.attentive.filter fun e => !decide (e.kind = .stateChange)

variable {t : Tracker}

theorem sound_notified (h : t.subscriptions.Sound) (n : Notice) : (t.notified n).subscriptions.Sound := by
  cases n with
  | trace event => exact (Subscriptions.claimAll_ofKind h event.kind).1
  | listeners | deliver => exact h

/-- State changes do not matter for who hears of something else. -/
theorem audience_notified (h : t.subscriptions.Sound) (n : Notice) :
    (t.notified n).audience = if n.isTelling then t.audience.notified n else t.audience := by
  cases n with
  | listeners | deliver => rfl
  | trace event =>
    have hattentive := (Subscriptions.claimAll_ofKind h event.kind).2.1
    have haudience : (t.notified (.trace event)).audience = { t.audience with
        entries := (t.subscriptions.attentive.filter fun e =>
          !(e.once && decide (e.kind = event.kind))).filter fun e => !decide (e.kind = .stateChange) } := by
      rw [← hattentive]
      rfl
    rw [haudience]
    cases event with
    | stateChange start duration state =>
      refine congrArg (fun entries => { t.audience with entries }) ?_
      rw [List.filter_filter]
      refine List.filter_congr fun e _ => ?_
      cases hkind : decide (e.kind = .stateChange)
      · rw [TraceEvent.kind, hkind, Bool.and_false]
        rfl
      · rfl
    | tx | rxOk | rxError =>
      refine congrArg (fun entries => { t.audience with entries }) ?_
      exact List.filter_comm ..

/-- A call of a subscriber tells of its event. -/
theorem isTelling_of_call? {event : TraceEvent} {who : Subscriber} {c : ObserverCall}
    (h : who.call? event = some c) : c.isTelling = Notice.isTelling (.trace event) := by
  cases who with
  | observer id =>
    obtain rfl := Option.some.inj h
    cases event <;> rfl
  | collector => cases h

theorem callsOn_trace (h : t.subscriptions.Sound) (event : TraceEvent) :
    t.callsOn (.trace event) = (t.subscriptions.attentive.filter fun e => e.kind = event.kind).filterMap
      (·.subscriber.call? event) := by
  rw [callsOn, (Subscriptions.claimAll_ofKind h event.kind).2.2, List.filterMap_map]
  rfl

/-- A call tells what its notice does. -/
theorem isTelling_of_mem_callsOn (h : t.subscriptions.Sound) {n : Notice} {c : ObserverCall}
    (hc : c ∈ t.callsOn n) : c.isTelling = n.isTelling := by
  cases n with
  | listeners call =>
    obtain ⟨id, -, rfl⟩ := List.mem_map.1 hc
    rfl
  | trace event =>
    rw [callsOn_trace h] at hc
    obtain ⟨e, -, he⟩ := List.mem_filterMap.1 hc
    exact isTelling_of_call? he
  | deliver delivery =>
    obtain ⟨id, -, rfl⟩ := List.mem_map.1 hc
    rfl

/-- Who is called on something else than a state change is in the audience. -/
theorem callsOn_audience (h : t.subscriptions.Sound) {n : Notice} (hn : n.isTelling) :
    t.callsOn n = t.audience.callsOn n := by
  cases n with
  | listeners call => rfl
  | deliver delivery => cases delivery <;> rfl
  | trace event =>
    have hkind : decide (event.kind = .stateChange) = false := by
      cases event with
      | stateChange => exact absurd hn Bool.false_ne_true
      | tx | rxOk | rxError => rfl
    rw [callsOn_trace h]
    refine congrArg (List.filterMap _) ?_
    change _ = (t.subscriptions.attentive.filter _).filter _
    rw [List.filter_filter]
    refine List.filter_congr fun e _ => ?_
    cases he : decide (e.kind = event.kind)
    · rfl
    · rw [of_decide_eq_true he, hkind]
      rfl

/-- A tracker after notices in turn, if observers only listen. -/
def notifiedAll (t : Tracker) (ns : List Notice) : Tracker :=
  ns.foldl notified t

theorem sound_notifiedAll (h : t.subscriptions.Sound) (ns : List Notice) :
    (t.notifiedAll ns).subscriptions.Sound := by
  induction ns generalizing t with
  | nil => exact h
  | cons n rest ih => exact ih (sound_notified h n)

/-- Who hears of something else than state changes, and who is called on it, depends on nothing else than who
heard of it before, and what of it was told. -/
theorem heard (h : t.subscriptions.Sound) (ns : List Notice) :
    (t.notifiedAll ns).audience = (ns.filter Notice.isTelling).foldl Audience.notified t.audience ∧
      (t.callsOnAll ns).filter ObserverCall.isTelling =
        t.audience.callsOnAll (ns.filter Notice.isTelling) := by
  induction ns generalizing t with
  | nil => exact ⟨rfl, rfl⟩
  | cons n rest ih =>
    obtain ⟨haudience, hcalls⟩ := ih (sound_notified h n)
    rw [audience_notified h] at haudience hcalls
    rw [callsOnAll, List.filter_append, hcalls]
    cases hn : n.isTelling with
    | true =>
      rw [hn, if_pos rfl] at haudience
      rw [List.filter_cons_of_pos hn, if_pos rfl, Audience.callsOnAll, ← callsOn_audience h hn]
      refine ⟨haudience, congrArg (· ++ _) (List.filter_eq_self.2 fun c hc => ?_)⟩
      exact (isTelling_of_mem_callsOn h hc).trans hn
    | false =>
      have hnone : (t.callsOn n).filter ObserverCall.isTelling = [] := by
        refine List.filter_eq_nil_iff.2 fun c hc => ?_
        rw [isTelling_of_mem_callsOn h hc, hn]
        exact Bool.false_ne_true
      rw [hn, if_neg Bool.false_ne_true] at haudience
      rw [List.filter_cons_of_neg (by rw [hn]; exact Bool.false_ne_true), hnone,
        if_neg Bool.false_ne_true]
      exact ⟨haudience, rfl⟩

end Tracker

end RadioOccupancy
