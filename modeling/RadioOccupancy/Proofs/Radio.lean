import RadioOccupancy.Proofs.BusyTable
import RadioOccupancy.Radio.BandState

/-!
How the state of a radio is derived, rule by rule.
-/

namespace RadioOccupancy

namespace Record

variable {r : Record} {table : BusyTable} {band : Band} {threshold now : Number}

/-- What holds of the radio's own activities holds of three of them. -/
theorem forall_activities {P : Activity → Prop} :
    (∀ a ∈ r.activities, P a) ↔
      P ⟨r.switching, .switching⟩ ∧ P ⟨r.tx, .tx⟩ ∧ P ⟨r.rx, .rx⟩ := by
  simp [activities]

/-- Of the radio's own activities, switching masks transmitting, and both mask receiving. -/
theorem activity?_eq (r : Record) (now : Number) :
    r.activity? now =
      if now < r.switching.stop then some .switching
      else if now < r.tx.stop then some .tx
      else if now < r.rx.stop then some .rx
      else none := by
  by_cases hs : now < r.switching.stop
  · simp [activity?, activities, hs]
  · by_cases ht : now < r.tx.stop
    · simp [activity?, activities, hs, ht]
    · by_cases hr : now < r.rx.stop <;> simp [activity?, activities, hs, ht, hr]

/-- An activity is never sleep or power off. -/
theorem isPowerSaving_activity? {s : Radio.State} (h : r.activity? now = some s) :
    s.isPowerSaving = false := by
  rw [activity?_eq] at h
  split_ifs at h <;> cases h <;> rfl

/-- The radio's own state decides, if it is not idle. -/
theorem stateOn_of_own {s : Radio.State} (h : r.ownState? now = some s) :
    r.stateOn table band threshold now = .ok s := by
  rw [stateOn, h]

/-- Otherwise the busy period of the band decides. -/
theorem stateOn_of_idle (h : r.ownState? now = none) {step : Number}
    (hstep : Threshold.step threshold table.resolution = .ok step) :
    r.stateOn table band threshold now =
      .ok (if (table.find? band step).any fun e => now < e.busyEnd then .ccaBusy else .idle) := by
  rw [stateOn, h, BusyTable.isBusyAt, BusyTable.get, hstep]
  rfl

theorem stateOn_error (h : r.ownState? now = none) {refusal : Refusal}
    (hstep : Threshold.step threshold table.resolution = .error refusal) :
    r.stateOn table band threshold now = .error refusal := by
  rw [stateOn, h, BusyTable.isBusyAt, BusyTable.get, hstep]
  rfl

/-- A radio that shows sleep or power off is asleep or off. -/
theorem powerState?_of_stateOn {s : Radio.State} (hs : s.isPowerSaving)
    (h : r.stateOn table band threshold now = .ok s) : r.powerState? = some s := by
  cases hown : r.ownState? now with
  | some s' =>
    rw [stateOn_of_own hown] at h
    obtain rfl := Except.ok.inj h
    cases hp : r.powerState? with
    | some s'' => simpa [ownState?, hp] using hown
    | none =>
      have hact : r.activity? now = some s' := by simpa [ownState?, hp] using hown
      rw [isPowerSaving_activity? hact] at hs
      cases hs
  | none =>
    cases hstep : Threshold.step threshold table.resolution with
    | error refusal =>
      rw [stateOn_error hown hstep] at h
      cases h
    | ok step =>
      rw [stateOn_of_idle hown hstep] at h
      obtain rfl := Except.ok.inj h
      split at hs <;> cases hs

/-- The radio is neither asleep nor off just if no such state shows. -/
theorem powerState?_eq_none_iff (r : Record) :
    r.powerState? = none ↔ r.poweredOff = false ∧ r.sleeping = false := by
  rw [powerState?]
  cases r.poweredOff <;> cases r.sleeping <;> simp

/-- A reception is open while it lasts, if the radio is on and awake and nothing masks it. -/
theorem hasOpenReception_iff (r : Record) {now : Number} (hnow : now.isFinite)
    (h : ∀ a ∈ r.activities, a.interval.stop.isFinite) :
    r.hasOpenReception now ↔ r.receiving ∧ r.powerState? = none ∧
      r.switching.stop.value ≤ now.value ∧ r.tx.stop.value ≤ now.value ∧
        now.value ≤ r.rx.stop.value := by
  obtain ⟨hs, ht, hr⟩ := forall_activities.1 h
  have hown : (r.ownState now == .rx || r.ownState now == .idle) = true ↔ r.powerState? = none ∧
      r.switching.stop.value ≤ now.value ∧ r.tx.stop.value ≤ now.value := by
    rw [ownState, ownState?, activity?_eq, ← not_lt, ← not_lt, ← Number.lt_iff hnow hs,
      ← Number.lt_iff hnow ht]
    rcases hp : r.powerState? with _ | s
    · split_ifs <;> simp_all
    · have : s = .off ∨ s = .sleep := by
        rw [powerState?] at hp
        split_ifs at hp <;> simp_all
      rcases this with rfl | rfl <;> simp
  rw [hasOpenReception, Bool.and_eq_true, Bool.and_eq_true, hown, Bool.not_eq_true',
    decide_eq_false_iff_not, Number.lt_iff hr hnow, not_lt]
  tauto

end Record

end RadioOccupancy
