import RadioOccupancy.Proofs.Delivery
import RadioOccupancy.Proofs.Exact
import RadioOccupancy.Proofs.Sound

/-!
Listeners hear of a busy primary channel when it turns busy, and at no other time.

    energy    |-----|   |---------|
                          |-----|           ends no later: kept as it is
                             |---------|    prolonged
    busy      |#####|   |##############|
    told      ^         ^

Whether a band is busy before and after is asked of the table. A detection knows something else: whether it
found the band busy, whether it is the latest so far, and what remains of it. The two agree (`beside_edge`),
and of all deeds of a transition only those of a detection tell of a busy band (`tellsOfEdge_deeds`).
-/

namespace RadioOccupancy

/-- The numbers that listeners are given when they are told that a busy period begins. -/
def Notice.busyStart? : Notice → Option (List Number)
  | .listeners ⟨.ccaBusyStart, args⟩ => some args
  | _ => none

/-- A band turns from clear to busy at an instant, by what two tables say of it. -/
def TurnsBusy (before after : BusyTable) (band : Band) (threshold now : Number) : Prop :=
  before.isBusyAt band threshold now = .ok false ∧ after.isBusyAt band threshold now = .ok true

/-- The primary channel on which a transition may record energy. -/
def Transition.primary? : Transition → Option Sensing
  | .detectEnergy _ _ on isPrimary | .wakeUp _ _ on isPrimary | .powerOn _ _ on isPrimary =>
    if isPrimary then some on else none
  | _ => none

/-- No listener is told in these steps that a busy period begins. -/
def TellsNoBusyStart (steps : List Step) : Prop :=
  ∀ n ∈ noticesOf steps, n.busyStart? = none

theorem TellsNoBusyStart.append {steps more : List Step} (h : TellsNoBusyStart steps)
    (h' : TellsNoBusyStart more) : TellsNoBusyStart (steps ++ more) := by
  rw [TellsNoBusyStart, noticesOf_append]
  exact fun n hn => (List.mem_append.1 hn).elim (h n) (h' n)

theorem tellsNoBusyStart_change (c : Change) : TellsNoBusyStart [.change c] := by
  simp [TellsNoBusyStart, noticesOf, Plan.notices]

theorem tellsNoBusyStart_announce {ns : List Notice} (h : ∀ n ∈ ns, n.busyStart? = none) :
    TellsNoBusyStart [.announce ns] := by
  rwa [TellsNoBusyStart, noticesOf_announce]

/-- Of the steps one tells listeners that a busy period begins, and how long it lasts from `now` on, if a
primary channel turns busy with them, and none does otherwise. -/
def TellsOfEdge (config : Config) (core : Core) (now : Number) (primary : Option Sensing)
    (steps : List Step) : Prop :=
  let after := (coreAfter steps core).table
  (∀ on ∈ primary, TurnsBusy core.table after on.band (on.thresholdIn config) now →
    ∃ e before later, after.get on.band (on.thresholdIn config) = .ok (some e) ∧
      steps = before ++ .announce [.listeners ⟨.ccaBusyStart, [e.busyEnd - now]⟩] :: later ∧
        TellsNoBusyStart before ∧ noticesOf later = []) ∧
  ((∀ on ∈ primary, ¬TurnsBusy core.table after on.band (on.thresholdIn config) now) →
    TellsNoBusyStart steps)

/-- What steps make of the busy table depends on nothing else. -/
theorem table_coreAfter {core core' : Core} (h : core.table = core'.table) (steps : List Step) :
    (coreAfter steps core).table = (coreAfter steps core').table := by
  induction steps generalizing core core' with
  | nil => exact h
  | cons step rest ih =>
    cases step with
    | change c =>
      rw [coreAfter_change, coreAfter_change]
      exact ih (congrArg c.applyToTable h)
    | announce ns => exact ih h
    | log m => exact ih h

/-- Of something that lasts from `now` on, time remains just if it ends after `now`. -/
theorem Number.remains_iff {now duration : Number} (hnow : now.isTime) (hd : duration.isTime)
    (hsum : (now + duration).isFinite ∧ (now + duration).value = now.value + duration.value) :
    0 < now + duration - now ↔ now < now + duration := by
  have hle : now.value ≤ (now + duration).value := by
    rw [hsum.2]
    exact le_add_of_nonneg_right (value_nonneg hd)
  have hend : (now + duration).isTime := isTime_iff.2 ⟨hsum.1, (value_nonneg hnow).trans hle⟩
  obtain ⟨hfin, hdiff⟩ := sub_of_value hend hnow hle (isFinite_of_isTime hd) (by rw [hsum.2]; ring)
  rw [lt_iff isFinite_zero hfin, lt_iff (isFinite_of_isTime hnow) hsum.1, hdiff, hsum.2, value_zero]
  exact (lt_add_iff_pos_right _).symm

namespace BusyTable

variable {t : BusyTable} {band : Band} {threshold step now duration : Number}

theorem isBusyAt_of_step (h : Threshold.step threshold t.resolution = .ok step) (now : Number) :
    t.isBusyAt band threshold now = .ok ((t.find? band step).any fun e => now < e.busyEnd) := by
  rw [isBusyAt, get, h]
  rfl

/-- A detection is the latest, found the band clear and has time left just if the band turns busy. -/
theorem beside_edge (existing : Option BusyEntry) (band : Band) (step : Number)
    (hleft : 0 < now + duration - now ↔ now < now + duration) :
    let found := detectionBeside existing band step now duration
    (found.isLatest && !found.foundBusy && 0 < found.entry.busyEnd - now) = true ↔
      (existing.any fun e => now < e.busyEnd) = false ∧ now < found.entry.busyEnd := by
  cases existing with
  | none => simp [detectionBeside, hleft]
  | some e =>
    by_cases hlast : now + duration ≤ e.busyEnd
    · simp [detectionBeside, hlast]
    · simp [detectionBeside, hlast, hleft]

end BusyTable

namespace Core

variable {config : Config} {core : Core} {now duration step : Number} {on : Sensing}

/-- The deeds of energy on a band at a threshold step. -/
theorem senseDeeds_of_step (isPrimary : Bool)
    (h : Threshold.step (on.thresholdIn config) core.table.resolution = .ok step) :
    core.senseDeeds config now duration on isPrimary =
      let found := BusyTable.detectionBeside (core.table.find? on.band step) on.band step now duration
      (if found.isLatest then [.change (.busy found.entry)] else []) ++
        if isPrimary && (found.isLatest && !found.foundBusy && 0 < found.entry.busyEnd - now) then
          [.announce [.listeners ⟨.ccaBusyStart, [found.entry.busyEnd - now]⟩]]
        else [] := by
  rw [senseDeeds, Planning.detection_eq, h]
  simp only [Except.map, Bool.and_assoc]

/-- They leave the table with what was detected. -/
theorem table_senseDeeds (isPrimary : Bool)
    (h : Threshold.step (on.thresholdIn config) core.table.resolution = .ok step) :
    (coreAfter (core.senseDeeds config now duration on isPrimary) core).table =
      core.table.detected on.band step now duration := by
  rw [senseDeeds_of_step isPrimary h, BusyTable.detected]
  dsimp only
  split <;> split <;> rfl

/-- Energy that turns the primary channel busy is told of last, with what is left of the busy period. Of other
energy listeners are not told. -/
theorem senseDeeds_edge (isPrimary : Bool) (hleft : 0 < now + duration - now ↔ now < now + duration) :
    let steps := core.senseDeeds config now duration on isPrimary
    let after := (coreAfter steps core).table
    (isPrimary = true ∧ TurnsBusy core.table after on.band (on.thresholdIn config) now →
      ∃ e before, after.get on.band (on.thresholdIn config) = .ok (some e) ∧
        steps = before ++ [.announce [.listeners ⟨.ccaBusyStart, [e.busyEnd - now]⟩]] ∧
          TellsNoBusyStart before) ∧
    (¬(isPrimary = true ∧ TurnsBusy core.table after on.band (on.thresholdIn config) now) →
      TellsNoBusyStart steps) := by
  intro steps after
  cases hstep : Threshold.step (on.thresholdIn config) core.table.resolution with
  | error r =>
    have hnone : steps = [] := by
      simp only [steps, senseDeeds, Planning.detection_eq, hstep]
      rfl
    refine ⟨?_, fun _ => ?_⟩
    · rintro ⟨-, hclear, -⟩
      rw [BusyTable.isBusyAt, BusyTable.get, hstep] at hclear
      cases hclear
    · rw [hnone]
      exact fun n hn => absurd hn List.not_mem_nil
  | ok step =>
    have hafter : after = core.table.detected on.band step now duration := table_senseDeeds isPrimary hstep
    have hsteps : steps = _ := senseDeeds_of_step isPrimary hstep
    have hedge := BusyTable.beside_edge (core.table.find? on.band step) on.band step hleft
    have hfind : after.find? on.band step = some (BusyTable.detectionBeside
        (core.table.find? on.band step) on.band step now duration).entry := by
      rw [hafter, BusyTable.find?_detected, if_pos]
      rw [Bool.and_eq_true, Band.sameKey_iff, Number.same_iff_key]
      exact ⟨⟨rfl, rfl⟩, rfl⟩
    have hresolution : after.resolution = core.table.resolution := by
      rw [hafter, BusyTable.resolution_detected]
    generalize BusyTable.detectionBeside (core.table.find? on.band step) on.band step now duration = found
      at hsteps hedge hfind
    dsimp only at hsteps hedge
    have hturns : TurnsBusy core.table after on.band (on.thresholdIn config) now ↔
        (found.isLatest && !found.foundBusy && 0 < found.entry.busyEnd - now) = true := by
      rw [hedge, TurnsBusy, BusyTable.isBusyAt_of_step hstep,
        BusyTable.isBusyAt_of_step (hresolution ▸ hstep), hfind]
      simp
    have hbusy : TellsNoBusyStart (if found.isLatest then [.change (.busy found.entry)] else []) := by
      split
      · exact tellsNoBusyStart_change _
      · exact fun n hn => absurd hn List.not_mem_nil
    rw [hturns, ← Bool.and_eq_true]
    refine ⟨fun h => ⟨found.entry, _, ?_, ?_, hbusy⟩, fun h => ?_⟩
    · rw [BusyTable.get, hresolution, hstep, ← hfind]
      rfl
    · rw [hsteps, if_pos h]
    · rw [hsteps, if_neg h, List.append_nil]
      exact hbusy

/-- So do they with other things done before and after that have nothing to do with energy. -/
theorem tellsOfEdge_sense {first last : List Step} (isPrimary : Bool)
    (hleft : 0 < now + duration - now ↔ now < now + duration)
    (hfirst : TellsNoBusyStart first ∧ (coreAfter first core).table = core.table)
    (hlast : noticesOf last = [] ∧ ∀ c, (coreAfter last c).table = c.table) :
    TellsOfEdge config core now (if isPrimary then some on else none)
      (first ++ core.senseDeeds config now duration on isPrimary ++ last) := by
  have hafter : (coreAfter (first ++ core.senseDeeds config now duration on isPrimary ++ last) core).table =
      (coreAfter (core.senseDeeds config now duration on isPrimary) core).table := by
    rw [coreAfter_append, coreAfter_append, hlast.2, table_coreAfter hfirst.2]
  obtain ⟨htold, hquiet⟩ := @senseDeeds_edge config core now duration on isPrimary hleft
  rw [TellsOfEdge, hafter]
  have hlast' : TellsNoBusyStart last := fun n hn => by
    rw [hlast.1] at hn
    cases hn
  refine ⟨?_, fun h => (hfirst.1.append (hquiet ?_)).append hlast'⟩
  · intro s hs hturns
    obtain ⟨hprimary, rfl⟩ : isPrimary = true ∧ on = s := by simpa using hs
    obtain ⟨e, before, hentry, hsteps, hbefore⟩ := htold ⟨hprimary, hturns⟩
    exact ⟨e, first ++ before, last, hentry, by simp [hsteps], hfirst.1.append hbefore, hlast.1⟩
  · rintro ⟨hprimary, hturns⟩
    exact h on (by simp [hprimary]) hturns

/-- Steps that have nothing to do with energy tell of none. -/
theorem tellsOfEdge_quiet {steps : List Step} {primary : Option Sensing} (h : TellsNoBusyStart steps)
    (htable : (coreAfter steps core).table = core.table) : TellsOfEdge config core now primary steps := by
  refine ⟨fun on _ hturns => ?_, fun _ => h⟩
  rw [htable] at hturns
  cases hturns.1.symm.trans hturns.2

end Core

namespace Transition

variable {config : Config} {core : Core}

theorem tellsNoBusyStart_reportDeeds (x : Transition) : TellsNoBusyStart (x.reportDeeds config core) := by
  obtain ⟨reports, -, hreports⟩ := x.noticesOf_reportDeeds config core
  rw [TellsNoBusyStart, hreports]
  intro n hn
  obtain ⟨e, -, rfl⟩ := List.mem_map.1 hn
  rfl

/-- A radio that comes up tells of a busy period if it records energy and the primary channel turns busy. -/
theorem tellsOfEdge_up {c : Change} {call : ListenerMethod} {first : List Step} {now duration : Number}
    {on : Sensing} (isPrimary : Bool) (hc : ∀ t, c.applyToTable t = t) (hcall : call ≠ .ccaBusyStart)
    (hleft : 0 < now + duration - now ↔ now < now + duration)
    (hfirst : TellsNoBusyStart first ∧ (coreAfter first core).table = core.table) :
    TellsOfEdge config core now (if isPrimary then some on else none)
      (first ++ ([.change c, .announce [.listeners ⟨call, []⟩]] ++
        if 0 < duration then core.senseDeeds config now duration on isPrimary else [])) := by
  have hup : TellsNoBusyStart (first ++ [.change c, .announce [.listeners ⟨call, []⟩]]) := by
    refine hfirst.1.append ((tellsNoBusyStart_change c).append (tellsNoBusyStart_announce ?_))
    simp only [List.forall_mem_singleton]
    cases call <;> first | rfl | exact absurd rfl hcall
  have htable : (coreAfter (first ++ [.change c, .announce [.listeners ⟨call, []⟩]]) core).table =
      core.table := by
    rw [coreAfter_append]
    exact (hc _).trans hfirst.2
  rw [← List.append_assoc]
  by_cases hd : 0 < duration
  · rw [if_pos hd, ← List.append_nil (_ ++ Core.senseDeeds ..)]
    exact Core.tellsOfEdge_sense isPrimary hleft ⟨hup, htable⟩ ⟨rfl, fun _ => rfl⟩
  · rw [if_neg hd, List.append_nil]
    exact Core.tellsOfEdge_quiet hup htable

/-- A transition tells listeners of a busy period just if the primary channel turns busy with it, and then
once. -/
theorem tellsOfEdge_deeds (x : Transition)
    (hleft : ∀ d ∈ x.duration?, 0 < x.time + d - x.time ↔ x.time < x.time + d) :
    TellsOfEdge config core x.time x.primary? (x.deeds config core) := by
  have hfirst : TellsNoBusyStart (x.reportDeeds config core) ∧
      (coreAfter (x.reportDeeds config core) core).table = core.table :=
    ⟨x.tellsNoBusyStart_reportDeeds, by rw [coreAfter_reportDeeds]⟩
  have hquiet : ∀ {enact}, x.enactDeeds config core = enact → TellsNoBusyStart enact →
      (∀ c, (coreAfter enact c).table = c.table) →
        TellsOfEdge config core x.time x.primary? (x.deeds config core) := by
    rintro enact rfl htold htable
    refine Core.tellsOfEdge_quiet (hfirst.1.append htold) ?_
    rw [deeds, coreAfter_append, htable, hfirst.2]
  have hpair : ∀ {c ns}, x.enactDeeds config core = [.change c, .announce ns] →
      (∀ n ∈ ns, n.busyStart? = none) → (∀ t, c.applyToTable t = t) →
        TellsOfEdge config core x.time x.primary? (x.deeds config core) := fun henact hns hc =>
    hquiet henact ((tellsNoBusyStart_change _).append (tellsNoBusyStart_announce hns)) fun _ => hc _
  cases x with
  | transmit =>
    refine hpair rfl ?_ fun _ => rfl
    rw [sendingNotices, List.forall_mem_append, List.forall_mem_map]
    exact ⟨fun _ _ => rfl, by simp [Notice.busyStart?]⟩
  | receive | retune | fallAsleep | powerOff =>
    exact hpair rfl (by simp [Notice.busyStart?]) fun _ => rfl
  | completeReception =>
    refine hpair rfl ?_ fun _ => rfl
    rw [receivedNotices_eq, List.forall_mem_append, List.forall_mem_append, List.forall_mem_map]
    exact ⟨⟨by simp [Notice.busyStart?], fun _ _ => rfl⟩, by simp [Notice.busyStart?]⟩
  | loseReception =>
    refine hpair rfl ?_ fun _ => rfl
    rw [lostNotices, List.forall_mem_append, List.forall_mem_append, List.forall_mem_map]
    exact ⟨⟨by simp [Notice.busyStart?], fun _ _ => rfl⟩, by simp [Notice.busyStart?]⟩
  | abortReception now failure =>
    cases failure with
    | true => exact hpair rfl (by simp [Notice.busyStart?]) fun _ => rfl
    | false => exact hquiet rfl (tellsNoBusyStart_change _) fun _ => rfl
  | continueReception => exact hquiet rfl (tellsNoBusyStart_change _) fun _ => rfl
  | flush => exact hquiet rfl (fun n hn => absurd hn List.not_mem_nil) fun _ => rfl
  | detectEnergy now duration on isPrimary =>
    rw [deeds, enactDeeds, ← List.append_assoc]
    exact Core.tellsOfEdge_sense isPrimary (hleft _ rfl) hfirst ⟨rfl, fun _ => rfl⟩
  | wakeUp now duration on isPrimary =>
    exact tellsOfEdge_up isPrimary (fun _ => rfl) (by decide) (hleft _ rfl) hfirst
  | powerOn now duration on isPrimary =>
    exact tellsOfEdge_up isPrimary (fun _ => rfl) (by decide) (hleft _ rfl) hfirst

end Transition

/-! ### What listeners are told -/

/-- The numbers that come with what a listener is told of the beginning of busy periods, time after time. -/
def busyStartsTo (id : ObserverId) (told : List Telling) : List (List Number) :=
  told.filterMap fun
    | .call (.listener id' ⟨.ccaBusyStart, args⟩) => if id' = id then some args else none
    | _ => none

/-- A listener is told of no busy period if nothing is told to listeners that is one. -/
theorem busyStartsTo_eq_nil {told : List Telling} (id : ObserverId)
    (h : ∀ id call, .call (.listener id call) ∈ told → (Notice.listeners call).busyStart? = none) :
    busyStartsTo id told = [] := by
  rw [busyStartsTo, List.filterMap_eq_nil_iff]
  intro telling htelling
  split
  · next args => cases h _ _ htelling
  · rfl

/-- Of listeners that are different, each is told once. -/
theorem busyStartsTo_members {members : List ObserverId} (h : members.Nodup) (id : ObserverId)
    (args : List Number) :
    busyStartsTo id (members.map fun id => .call (.listener id ⟨.ccaBusyStart, args⟩)) =
      if id ∈ members then [args] else [] := by
  rw [busyStartsTo, List.filterMap_map]
  induction members with
  | nil => rfl
  | cons id' rest ih =>
    obtain ⟨hnot, hrest⟩ := List.nodup_cons.1 h
    rw [List.filterMap_cons, ih hrest]
    by_cases hid : id' = id
    · subst hid
      simp [hnot]
    · simp [hid, Ne.symm hid]

namespace Act

variable {respond : Respond} {i : Nat} {s s' : Session} {t : Tracker}

/-- Listeners are told what the notice says. -/
theorem tells_giveNotice {before : Tracker} {n : Notice}
    (h : (giveNotice respond i before n).ran s = (.ok (), s')) :
    ∃ told, Tells respond i told s s' ∧
      ∀ id call, .call (.listener id call) ∈ told → n = .listeners call := by
  cases n with
  | listeners call =>
    obtain ⟨u, s₁, hu, hcalls⟩ := ok_of_bind h
    have hlook := (getElem?_of_ran_tracker (congrArg Prod.fst hu)).2
    rw [hu] at hlook
    obtain rfl : s₁ = s := hlook
    refine ⟨_, tells_callListeners hcalls, fun id call' hmem => ?_⟩
    obtain ⟨id', -, heq⟩ := List.mem_map.1 hmem
    obtain ⟨-, rfl⟩ := ObserverCall.listener.inj (Telling.call.inj heq)
    rfl
  | trace e =>
    obtain ⟨heard, s₁, hemit, hend⟩ := ok_of_bind h
    obtain ⟨-, rfl⟩ := Prod.mk.inj hend
    exact ⟨[.event e], .event hemit (.nil _), by simp⟩
  | deliver d =>
    rw [giveNotice] at h
    cases hid : before.callbackFor d with
    | none =>
      rw [hid] at h
      obtain ⟨-, rfl⟩ := Prod.mk.inj h
      exact ⟨[], .nil _, by simp⟩
    | some id =>
      rw [hid] at h
      exact ⟨[.call (.delivery id d)], .call h (.nil _), by simp⟩

theorem tells_giveNotices {before : Tracker} {ns : List Notice}
    (h : (giveNotices respond i before ns).ran s = (.ok (), s')) :
    ∃ told, Tells respond i told s s' ∧
      ∀ id call, .call (.listener id call) ∈ told → .listeners call ∈ ns := by
  induction ns generalizing s with
  | nil =>
    obtain ⟨-, rfl⟩ := Prod.mk.inj h
    exact ⟨[], .nil _, by simp⟩
  | cons n rest ih =>
    obtain ⟨⟨⟩, s₁, hn, hrest⟩ := ok_of_bind h
    obtain ⟨told, htold, hmem⟩ := tells_giveNotice hn
    obtain ⟨later, hlater, hmem'⟩ := ih hrest
    refine ⟨told ++ later, htold.append hlater, fun id call h => ?_⟩
    rcases List.mem_append.1 h with h | h
    · exact List.mem_cons.2 (Or.inl (hmem id call h).symm)
    · exact List.mem_cons_of_mem _ (hmem' id call h)

/-- What listeners are told by an announcement is in its notices. -/
theorem tells_of_announce {ns : List Notice} (ht : s.trackers[i]? = some t)
    (h : (announce respond i ns).ran s = (.ok (), s')) :
    ∃ told, Tells respond i told s s' ∧
      ∀ id call, .call (.listener id call) ∈ told → .listeners call ∈ ns := by
  rw [ran_announce ns ht] at h
  obtain ⟨hok, rfl⟩ := Prod.mk.inj h
  obtain ⟨told, htold, hmem⟩ := tells_giveNotices (Prod.ext hok rfl)
  refine ⟨told, ?_, hmem⟩
  rw [← List.append_nil told]
  exact .note (fun t => { t with announcing := t.announcing + 1 }) (fun _ => rfl) (htold.append
    (.note (fun t => { t with announcing := t.announcing - 1 }) (fun _ => rfl) (.nil _)))

/-- What listeners are told by steps is in their notices. -/
theorem tells_of_steps (hr : ∀ c, (respond c).Along (Spares i)) {steps : List Step}
    (ht : s.trackers[i]? = some t) (h : (carryOutSteps respond i steps).ran s = (.ok (), s')) :
    ∃ told, Tells respond i told s s' ∧
      ∀ id call, .call (.listener id call) ∈ told → .listeners call ∈ noticesOf steps := by
  induction steps generalizing s t with
  | nil =>
    obtain ⟨-, rfl⟩ := Prod.mk.inj h
    exact ⟨[], .nil _, by simp⟩
  | cons step rest ih =>
    obtain ⟨⟨⟩, s₁, hstep, hrest⟩ := ok_of_bind h
    obtain ⟨t₁, ht₁, -⟩ := keeps_carryOutStep hr step ht
    rw [hstep] at ht₁
    obtain ⟨later, hlater, hmem'⟩ := ih ht₁ hrest
    rw [show step :: rest = [step] ++ rest from rfl, noticesOf_append]
    suffices hfirst : ∃ told, Tells respond i told s s₁ ∧
        ∀ id call, .call (.listener id call) ∈ told → .listeners call ∈ noticesOf [step] by
      obtain ⟨told, htold, hmem⟩ := hfirst
      refine ⟨told ++ later, htold.append hlater, fun id call h => List.mem_append.2 ?_⟩
      exact (List.mem_append.1 h).imp (hmem id call) (hmem' id call)
    cases step with
    | change c =>
      obtain ⟨-, rfl⟩ := Prod.mk.inj hstep
      exact ⟨[], .note (fun t => { t with core := c.apply t.core }) (fun _ => rfl) (.nil _), by simp⟩
    | announce ns =>
      rw [noticesOf_announce]
      exact tells_of_announce ht hstep
    | log m =>
      rw [carryOutStep, ran_bind, ran_tracker ht] at hstep
      exact ⟨[], .log hstep (.nil _), by simp⟩

/-- Steps with no notice of a busy period tell no listener of one. -/
theorem tells_noBusyStart (hr : ∀ c, (respond c).Along (Spares i)) {steps : List Step}
    (ht : s.trackers[i]? = some t) (hquiet : TellsNoBusyStart steps)
    (h : (carryOutSteps respond i steps).ran s = (.ok (), s')) :
    ∃ told, Tells respond i told s s' ∧ ∀ id, busyStartsTo id told = [] := by
  obtain ⟨told, htold, hmem⟩ := tells_of_steps hr ht h
  exact ⟨told, htold, fun id => busyStartsTo_eq_nil id fun id call hc => hquiet _ (hmem id call hc)⟩

/-- An announcement to listeners calls each of them that is registered when it begins. -/
theorem tells_announce_listeners {call : ListenerCall} (ht : s.trackers[i]? = some t)
    (h : (announce respond i [.listeners call]).ran s = (.ok (), s')) :
    Tells respond i (t.listeners.members.map fun id => .call (.listener id call)) s s' := by
  refine .announce ht h fun s₁ s₂ u hu hsame hnotices => ?_
  obtain ⟨⟨⟩, s₃, hcalls, hend⟩ := ok_of_bind hnotices
  obtain ⟨-, rfl⟩ := Prod.mk.inj hend
  rw [giveNotice, ran_bind, ran_tracker hu, onward, hsame] at hcalls
  exact tells_callListeners hcalls

end Act

/-- In any session, a transition that a tracker accepts and that no observer breaks off tells each listener
that is registered by then, once, of the busy period of the primary channel if that turns busy with the
transition, and of how long it lasts from then on. Otherwise it tells no listener of a busy period. -/
theorem Session.tells_busy_edge {s s' : Session} {i depth : Nat} {t : Tracker} {x : Transition}
    (ht : s.trackers[i]? = some t) (ha : (t.plan x).outcome = .ok ()) (hsum : x.SumsExactly)
    (hcall : (Act.carryOutSteps (Act.respond depth) i (t.plan x).steps).ran s = (.ok (), s')) :
    ∃ t', s'.trackers[i]? = some t' ∧
      (∀ on ∈ x.primary?,
        TurnsBusy t.core.table t'.core.table on.band (on.thresholdIn t.config) x.time →
          ∃ told s₁ u e, Act.Tells (Act.respond depth) i told s s₁ ∧ (∀ id, busyStartsTo id told = []) ∧
            s₁.trackers[i]? = some u ∧
            t'.core.table.get on.band (on.thresholdIn t.config) = .ok (some e) ∧
            ∃ calls, Act.Tells (Act.respond depth) i calls s₁ s' ∧
              calls = u.listeners.members.map (fun id =>
                .call (.listener id ⟨.ccaBusyStart, [e.busyEnd - x.time]⟩)) ∧
              ∀ id, busyStartsTo id calls =
                if id ∈ u.listeners.members then [[e.busyEnd - x.time]] else []) ∧
      ((∀ on ∈ x.primary?,
        ¬TurnsBusy t.core.table t'.core.table on.band (on.thresholdIn t.config) x.time) →
          ∃ told, Act.Tells (Act.respond depth) i told s s' ∧ ∀ id, busyStartsTo id told = []) := by
  have hr : ∀ c, (Act.respond depth c).Along (Spares i) := Act.sparing_respond depth
  obtain ⟨hp, hdeeds⟩ := Tracker.deeds_plan_of_accepted ha
  have hleft : ∀ d ∈ x.duration?, 0 < x.time + d - x.time ↔ x.time < x.time + d := fun d hd =>
    have htime := Transition.isTime_of_duration? hp.arguments d hd
    Number.remains_iff hp.time htime (hsum d hd hp.time htime)
  obtain ⟨hturns, hquiet⟩ : TellsOfEdge t.config t.core x.time x.primary? _ := x.tellsOfEdge_deeds hleft
  obtain ⟨t', ht', hk⟩ := Act.keeps_carryOutSteps hr ht hcall
  have hcore : t'.core = coreAfter (x.deeds t.config t.core) t.core := by
    rw [← hdeeds, coreAfter_deedsOf]
    exact hk.core
  rw [← hcore] at hturns hquiet
  refine ⟨t', ht', fun on hon hedge => ?_, fun hnone => ?_⟩
  · obtain ⟨e, before, later, hentry, hsteps, hbefore, hlater⟩ := hturns on hon hedge
    rw [hsteps] at hdeeds
    obtain ⟨xs, ys, hplan, rfl, rfl⟩ := deedsOf_eq_append_cons hdeeds
    rw [TellsNoBusyStart, noticesOf_deedsOf] at hbefore
    rw [noticesOf_deedsOf] at hlater
    rw [hplan, Act.carryOutSteps_append] at hcall
    obtain ⟨⟨⟩, s₁, hfirst, hcall⟩ := Act.ok_of_bind hcall
    obtain ⟨⟨⟩, s₂, hannounced, hlast⟩ := Act.ok_of_bind hcall
    obtain ⟨u, hu, -⟩ := Act.keeps_carryOutSteps hr ht hfirst
    obtain ⟨v, hv, -⟩ := Act.keeps_announce hr _ hu
    rw [show (Act.announce _ _ _).ran s₁ = _ from hannounced] at hv
    obtain ⟨told, htold, hnone⟩ := Act.tells_noBusyStart hr ht hbefore hfirst
    have hquiet : Act.Tells _ i (List.map .event []) s₂ s' := Act.tells_steps hr hv hlater hlast
    have hcalls := (Act.tells_announce_listeners hu hannounced).append hquiet
    rw [List.map_nil, List.append_nil] at hcalls
    exact ⟨told, s₁, u, e, htold, hnone, hu, hentry, _, hcalls, rfl,
      fun id => busyStartsTo_members u.listeners.nodup id _⟩
  · have hsteps : TellsNoBusyStart (t.plan x).steps := by
      rw [TellsNoBusyStart, ← noticesOf_deedsOf, hdeeds]
      exact hquiet hnone
    exact Act.tells_noBusyStart hr ht hsteps hcall

/-- Two listeners observe a radio. Energy was on the primary channel until five, and there is energy again
from ten on, for five units: this is told. -/
theorem Session.tells_busy_edge_of_second_burst :
    ∃ (s s₁ s' : Session) (t u : Tracker) (calls : List Telling),
      let x : Transition := .detectEnergy 10 5 ⟨⟨0, 63⟩, none⟩ true
      s.trackers[0]? = some t ∧ (t.plan x).outcome = .ok () ∧
        (Act.carryOutSteps (Act.respond 1) 0 (t.plan x).steps).ran s = (.ok (), s') ∧
          s₁.trackers[0]? = some u ∧ Act.Tells (Act.respond 1) 0 calls s₁ s' ∧
            ∀ id, busyStartsTo id calls = if id ∈ u.listeners.members then [[5]] else [] := by
  let observed : Tracker → Tracker := fun t =>
    { t with listeners := (t.listeners.register "mac").register "upper" }
  let x : Transition := .detectEnergy 10 5 ⟨⟨0, 63⟩, none⟩ true
  let s := ((Act.carryOutSteps (Act.respond 1) 0
    ((observed (.first {})).plan (.detectEnergy 0 5 ⟨⟨0, 63⟩, none⟩ false)).steps).ran
      ((firstUnder "radio").modifyTracker 0 observed)).2
  let call := fun t : Tracker => (Act.carryOutSteps (Act.respond 1) 0 (t.plan x).steps).ran s
  have hany : (s.trackers[0]?.any fun t => (t.plan x).outcome.isOk && (call t).1.isOk &&
      t.config = {} && (t.core.table.isBusyAt ⟨0, 63⟩ (-82) 10).toOption = some false &&
        (call t).2.trackers[0]?.any fun t' =>
          (t'.core.table.isBusyAt ⟨0, 63⟩ (-82) 10).toOption = some true &&
            (t'.core.table.get ⟨0, 63⟩ (-82)).toOption.join.any fun e => e.busyEnd - 10 = 5) = true := by
    decide +kernel
  obtain ⟨t, ht, h⟩ := (Option.any_eq_true _ _).1 hany
  simp only [Bool.and_eq_true, decide_eq_true_iff, Option.any_eq_true] at h
  obtain ⟨⟨⟨⟨haccepted, hcall⟩, hconfig⟩, hclear⟩, t₂, ht₂, hbusy, e₂, he₂, hleft⟩ := h
  have hok : ∀ {α : Type} {r : Except Refusal α} {a : α}, r.toOption = some a → r = .ok a := by
    rintro α (_ | a) b h <;> cases h
    rfl
  obtain ⟨t', ht', hturns, -⟩ := tells_busy_edge ht (Act.eq_ok_of_isOk haccepted)
    (by simp only [Transition.SumsExactly]; decide +kernel) (Act.ok_of_isOk hcall)
  obtain rfl := Option.some.inj (ht₂.symm.trans ht')
  obtain ⟨told, s₁, u, e, -, -, hu, hentry, calls, hcalls, -, hto⟩ :=
    hturns ⟨⟨0, 63⟩, none⟩ rfl (hconfig ▸ ⟨hok hclear, hok hbusy⟩)
  rw [hconfig] at hentry
  obtain rfl : e = e₂ := by
    have hsome : (t₂.core.table.get ⟨0, 63⟩ (-82)).toOption.join = some e :=
      congrArg (fun r => (Except.toOption r).join) hentry
    exact Option.some.inj (hsome.symm.trans he₂)
  refine ⟨s, s₁, (call t).2, t, u, calls, ht, Act.eq_ok_of_isOk haccepted, Act.ok_of_isOk hcall, hu,
    hcalls, ?_⟩
  rw [← hleft]
  exact hto

end RadioOccupancy
