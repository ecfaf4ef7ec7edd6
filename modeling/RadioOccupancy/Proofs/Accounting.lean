import RadioOccupancy.Proofs.Packets

/-!
Statistics account for everything once.

    calls:      transmit 30     flush 40     receive 60 ...
    changes:                tx 30     idle 10
    totals:     sent 2      tx 30     idle 10, 40 altogether

A collector that has been attached to a new tracker and is then left in peace adds each event of the tracker
once (`Session.Metered.tallies`). The state changes among the events tile the time from zero to the cursor
(`History.tiles`), so the times that are added up come to that, and the packet events are as many as the
accepted calls say (`countP_events`).
-/

namespace RadioOccupancy

/-- Totals account for calls that have brought the trace of a tracker up to an instant. -/
structure Statistics.AccountFor (totals : Statistics) (calls : List Call) (reached : Number) : Prop where
  total : totals.totalTime.isFinite ∧ totals.totalTime.value = reached.value
  states : ((Radio.State.all.map totals.timePerState.get).foldl (· + ·) 0).isFinite ∧
    ((Radio.State.all.map totals.timePerState.get).foldl (· + ·) 0).value = reached.value
  state : ∀ p, (totals.timePerState.get p).isFinite ∧
    (totals.timePerState.get p).value = timeIn (· = p) (calls.flatMap Call.stateChanges)
  segments : (Radio.State.all.map totals.segmentsPerState.get).sum =
    (calls.flatMap Call.stateChanges).length
  sent : totals.sent = packetsBy Transition.packetsSent calls
  received : totals.received = packetsBy Transition.packetsReceived calls
  lost : totals.lost = packetsBy Transition.packetsLost calls
  /-- nothing was reported -/
  unreported : calls.flatMap Call.stateChanges = [] → totals.occupancy = .ok 0
  /-- the occupancy is the share of the time in which the radio was busy -/
  occupancy : calls.flatMap Call.stateChanges ≠ [] → ∃ busy q : Number, busy.isFinite ∧
    busy.value = timeIn (· ≠ .idle) (calls.flatMap Call.stateChanges) ∧ totals.occupancy = .ok q ∧
      q.isFinite ∧ q.value = (busy / totals.totalTime).value ∧ 0 ≤ q.value ∧ q.value ≤ 1

/-- The totals of the events of a history account for its calls. -/
theorem History.accountFor {config : Config} {calls : List Call} {core : Core}
    (h : History config (.fresh config) calls core)
    (hres : config.thresholdResolution.isFinite ∧ ¬config.thresholdResolution ≤ 0)
    (hthr : ∀ c ∈ calls, c.transition.HasFiniteThreshold config)
    (hsum : ∀ c ∈ calls, c.transition.SumsExactly) (htimes : ExactTimes (timesOf calls))
    (hexact : ExactSums (calls.flatMap Call.stateChanges)) :
    (Statistics.of (calls.flatMap Call.events)).AccountFor calls core.cursor := by
  have hstart := Core.sound_fresh hres
  have hends : ∀ c ∈ calls, c.transition.EndsLater := fun c hc => (hsum c hc).endsLater
  have htiles := h.tiles hstart (Core.within_fresh config calls) hthr hends
    (fun c hc => Call.names_times hc (hsum c hc)) htimes.sub
  rw [show (Core.fresh config).cursor.value = 0 from Number.value_zero] at htiles
  have hfits : ∀ c ∈ calls, c.Fits config := by
    intro c hc
    obtain ⟨before, after, rfl⟩ := List.append_of_mem hc
    exact (h.fits hstart hthr hends).1
  have hchanges : (calls.flatMap Call.events).filterMap TraceEvent.stateChange? =
      calls.flatMap Call.stateChanges := by
    rw [List.filterMap_flatMap]
    exact congrArg (List.flatMap · calls) (funext Call.stateChange?_events)
  rw [← hchanges] at htiles hexact
  have hreached : timeIn (fun _ => true) ((calls.flatMap Call.events).filterMap TraceEvent.stateChange?) =
      core.cursor.value := htiles.timeIn_eq.trans (sub_zero _)
  obtain ⟨hsent, hreceived, hlost⟩ := Statistics.packets_foldl (calls.flatMap Call.events) {}
  have hcount (kind : TraceKind) (hkind : kind ≠ .stateChange) (f : Transition → Nat)
      (hf : ∀ x : Transition, x.ArgumentsValid →
        (x.packetEvents.countP fun e => e.kind = kind) = f x) :
      0 + ((calls.flatMap Call.events).countP fun e => e.kind = kind) = packetsBy f calls :=
    (Nat.zero_add _).trans (countP_events hfits hkind hf)
  exact {
    total := hreached ▸ Statistics.totalTime_eq hexact
    states := hreached ▸ Statistics.sum_states hexact htiles
    state := fun p => hchanges ▸ Statistics.timePerState_eq hexact p
    segments := hchanges ▸ Statistics.sum_segments _
    sent := hsent.trans (hcount .tx (by decide) _ fun x hx => (x.countP_packetEvents hx).1)
    received := hreceived.trans (hcount .rxOk (by decide) _ fun x hx => (x.countP_packetEvents hx).2.1)
    lost := hlost.trans (hcount .rxError (by decide) _ fun x hx => (x.countP_packetEvents hx).2.2)
    unreported := fun hnil => Statistics.occupancy_of_nil (hchanges.trans hnil)
    occupancy := fun hne => hchanges ▸ Statistics.occupancy_eq hexact htiles (hchanges ▸ hne) }

/-- In any session that requests lead to (`Session.orderly_after`), a collector without totals is attached to
a new tracker and then left in peace: nobody attaches, detaches or resets it, the tracker is neither disposed
of nor made to emit events without a transition, and no observer fails. Then, whatever is requested of the
session, the totals of the collector account for the calls of the tracker, up to its cursor. -/
theorem Session.Ready.accounts {s : Session} {i k : Nat} {config : Config} (hs : s.Ready i k config) :
    (∀ rs, Undisturbed i k rs (s.attached i k) →
      ∃ calls, Metered i k (s.attached i k) calls ((s.attached i k).after rs)) ∧
    ∀ calls s', Metered i k (s.attached i k) calls s' →
      (∀ c ∈ calls, c.transition.HasFiniteThreshold config) →
      (∀ c ∈ calls, c.transition.SumsExactly) → ExactTimes (timesOf calls) →
      ExactSums (calls.flatMap Call.stateChanges) →
        ∃ t totals, s'.trackers[i]? = some t ∧ s'.totals? k = some totals ∧
          totals.AccountFor calls t.core.cursor := by
  obtain ⟨hattends, hsub, hlogged, htotals, hhist⟩ := hs.attached
  refine ⟨fun rs h => metered_steps hattends hsub hlogged h, fun calls s' hrun hthr hsum htimes hexact => ?_⟩
  obtain ⟨log, t₀, u, hcreate, -⟩ := hs.tracker
  obtain ⟨-, -, -, hres⟩ := Tracker.of_create hcreate
  obtain ⟨t, ht, -, -, hhist⟩ := hrun.history hhist
  exact ⟨t, _, ht, (hrun.tallies hattends hsub).totals _ htotals,
    hhist.accountFor hres hthr hsum htimes hexact⟩

/-- A session in which nothing is but a new tracker and a collector, under names. -/
def Session.firstMeasured : Session :=
  { firstUnder "radio" with collectors := #[{ log := 0 }], collectorNames := [("totals", 0)] }

theorem Session.ready_firstMeasured : firstMeasured.Ready 0 0 {} := by
  have hfirst : (firstUnder "radio").Orderly := Orderly.empty.pushTracker rfl rfl rfl Nat.zero_lt_one rfl
  exact ⟨hfirst.pushCollector rfl rfl rfl, ⟨0, _, _, rfl, rfl, .refl _⟩, _, rfl, rfl⟩

/-- Two packets are sent for thirty units. -/
def Transition.sendTwo : Transition :=
  .transmit 0 30 ⟨[(1, ⟨[⟨1, 100⟩, ⟨2, 100⟩], true⟩)]⟩ 20 ⟨"OfdmRate6Mbps", .long, 0, 20⟩ ⟨⟨0, 63⟩, none⟩

theorem Session.undisturbed_sendTwo :
    Undisturbed 0 0 [.tracker "radio" (.transition .sendTwo), .collector "totals" .occupancy]
      (firstMeasured.attached 0 0) :=
  ⟨rfl, rfl, trivial⟩

/-- A collector is attached to a new tracker, which sends two packets for thirty units and then reports up to
forty. The radio was not idle for three quarters of that. -/
theorem Session.Ready.accounts_of_transmission :
    firstMeasured.Ready 0 0 {} ∧
      (∃ calls, Metered 0 0 (firstMeasured.attached 0 0) calls ((firstMeasured.attached 0 0).after
        [.tracker "radio" (.transition .sendTwo), .collector "totals" .occupancy])) ∧
      ∃ calls s t totals, Metered 0 0 (firstMeasured.attached 0 0) calls s ∧
        calls.map Call.transition = [.sendTwo, .flush 40 ⟨⟨0, 63⟩, none⟩] ∧ s.trackers[0]? = some t ∧
          s.totals? 0 = some totals ∧ totals.AccountFor calls t.core.cursor ∧ t.core.cursor = 40 ∧
            totals.sent = 2 ∧ totals.occupancy.toOption = some 0.75 := by
  let s₀ : Session := firstMeasured.attached 0 0
  let x : Transition := .sendTwo
  let y : Transition := .flush 40 ⟨⟨0, 63⟩, none⟩
  let ran (t : Tracker) (x : Transition) (s : Session) : Except Fault Unit × Session :=
    (Act.carryOutSteps (Act.respondUndisturbed 0 0 1) 0 (t.plan x).steps).ran s
  have hany : (s₀.trackers[0]?.any fun t₀ => (ran t₀ x s₀).1.isOk &&
      (ran t₀ x s₀).2.trackers[0]?.any fun t₁ => (ran t₁ y (ran t₀ x s₀).2).1.isOk &&
        decide ([Call.mk t₀ x, Call.mk t₁ y].flatMap Call.stateChanges = [(0, 30, .tx), (30, 10, .idle)]) &&
          ((ran t₁ y (ran t₀ x s₀).2).2.trackers[0]?.all fun t => t.core.cursor = 40) &&
            ((ran t₁ y (ran t₀ x s₀).2).2.totals? 0).all fun totals =>
              totals.sent = 2 ∧ totals.occupancy.toOption = some 0.75) = true := by
    decide +kernel
  obtain ⟨t₀, ht₀, hfirst⟩ := (Option.any_eq_true _ _).1 hany
  obtain ⟨hfirst, hsecond⟩ := Bool.and_eq_true_iff.1 hfirst
  obtain ⟨t₁, ht₁, hsecond⟩ := (Option.any_eq_true _ _).1 hsecond
  simp only [Bool.and_eq_true, decide_eq_true_iff] at hsecond
  obtain ⟨⟨⟨hsecond, hchanges⟩, hcursor⟩, htotals⟩ := hsecond
  have hrun : Metered 0 0 s₀ ([] ++ [⟨t₀, x⟩] ++ [⟨t₁, y⟩]) _ :=
    .call (.call .nil ht₀ (Act.ok_of_isOk hfirst)) ht₁ (Act.ok_of_isOk hsecond)
  rw [List.nil_append, List.singleton_append] at hrun
  have hall : ∀ z ∈ [Call.mk t₀ x, ⟨t₁, y⟩].map Call.transition, z.HasFiniteThreshold {} ∧
      z.SumsExactly := by
    rw [List.map_cons, List.map_singleton, List.forall_mem_cons, List.forall_mem_singleton]
    refine ⟨⟨?_, ?_⟩, ?_, ?_⟩
    · rintro on ⟨⟩
      rfl
    · rintro d ⟨⟩
      change (0 : Number).isTime → (30 : Number).isTime → ((0 : Number) + 30).isFinite ∧
        ((0 : Number) + 30).value = (0 : Number).value + (30 : Number).value
      decide +kernel
    · rintro on ⟨⟩
      rfl
    · rintro d ⟨⟩
  rw [List.forall_mem_map] at hall
  have htimes : ExactTimes (timesOf [⟨t₀, x⟩, ⟨t₁, y⟩]) := by
    rw [show timesOf [⟨t₀, x⟩, ⟨t₁, y⟩] = [0, 0, 0 + 30, 40] from rfl, ExactTimes]
    decide +kernel
  have hexact : ExactSums ([Call.mk t₀ x, ⟨t₁, y⟩].flatMap Call.stateChanges) := by
    rw [hchanges, ExactSums]
    decide +kernel
  obtain ⟨hcovers, haccounts⟩ := ready_firstMeasured.accounts
  obtain ⟨t, totals, ht, hheld, hacc⟩ := haccounts _ _ hrun (fun c hc => (hall c hc).1)
    (fun c hc => (hall c hc).2) htimes hexact
  rw [ht, Option.all_some, decide_eq_true_iff] at hcursor
  rw [hheld, Option.all_some, decide_eq_true_iff] at htotals
  exact ⟨ready_firstMeasured, hcovers _ undisturbed_sendTwo, _, _, t, totals, hrun, rfl, ht, hheld, hacc,
    hcursor, htotals⟩

end RadioOccupancy
