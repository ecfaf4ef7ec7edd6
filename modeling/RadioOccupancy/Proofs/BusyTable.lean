import RadioOccupancy.Proofs.Number
import RadioOccupancy.Radio.BusyTable

/-!
A busy table is a map from keys to busy periods, and a detection moves the end of one of them forward.

The keys are a band and a threshold step, compared by `BusyEntry.isFor`, which is an equality of key
contents. `find?_detected` is what a detection does to the map; `busyEnd_beside` and
`busyStart_beside` are what it makes of the entry.
-/

namespace RadioOccupancy

theorem Band.sameKey_iff (a b : Band) :
    a.sameKey b ↔ a.start.key = b.start.key ∧ a.stop.key = b.stop.key := by
  rw [sameKey, Bool.and_eq_true, Number.same_iff_key, Number.same_iff_key]

namespace BusyEntry

theorem isFor_iff (e : BusyEntry) (band : Band) (step : Number) :
    e.isFor band step ↔ (e.band.start.key = band.start.key ∧ e.band.stop.key = band.stop.key) ∧
      e.step.key = step.key := by
  rw [isFor, Bool.and_eq_true, Band.sameKey_iff, Number.same_iff_key]

/-- An entry is kept for the same keys as another that is kept for its key. -/
theorem isFor_congr {e e' : BusyEntry} (h : e.isFor e'.band e'.step) (band : Band) (step : Number) :
    e.isFor band step = e'.isFor band step := by
  rw [isFor_iff] at h
  rw [Bool.eq_iff_iff, isFor_iff, isFor_iff, h.1.1, h.1.2, h.2]

/-- Both ends of a busy period are finite, and it does not end before it began. -/
structure Sound (e : BusyEntry) : Prop where
  finite_start : e.busyStart.isFinite
  finite_end : e.busyEnd.isFinite
  start_le_end : e.busyStart.value ≤ e.busyEnd.value

end BusyEntry

namespace BusyTable

/-! ### Looking up what was put in -/

theorem find?_putIn (entry : BusyEntry) (entries : List BusyEntry) (band : Band) (step : Number) :
    (putIn entry entries).find? (fun e => e.isFor band step) =
      if entry.isFor band step then some entry else entries.find? fun e => e.isFor band step := by
  induction entries with
  | nil => by_cases h : entry.isFor band step <;> simp [putIn, h]
  | cons e rest ih =>
    rw [putIn]
    split
    · -- the entry takes the place of one for its key
      next he =>
      rw [List.find?_cons, List.find?_cons, BusyEntry.isFor_congr he band step]
      cases entry.isFor band step <;> simp
    · next he =>
      rw [List.find?_cons, List.find?_cons, ih]
      cases h : e.isFor band step with
      | false => rfl
      | true =>
        -- two entries for one key would be kept for each other's
        have : entry.isFor band step = false := by
          rw [Bool.eq_false_iff]
          intro h'
          rw [BusyEntry.isFor_iff] at he h h'
          exact he ⟨⟨h.1.1.trans h'.1.1.symm, h.1.2.trans h'.1.2.symm⟩, h.2.trans h'.2.symm⟩
        simp [this]

theorem find?_put (t : BusyTable) (entry : BusyEntry) (band : Band) (step : Number) :
    (t.put entry).find? band step =
      if entry.isFor band step then some entry else t.find? band step :=
  find?_putIn entry t.entries band step

theorem mem_putIn {entry e : BusyEntry} {entries : List BusyEntry} (h : e ∈ putIn entry entries) :
    e = entry ∨ e ∈ entries := by
  induction entries with
  | nil => exact Or.inl (List.mem_singleton.1 h)
  | cons e' rest ih =>
    rw [putIn] at h
    split at h
    · exact (List.mem_cons.1 h).imp_right (List.mem_cons_of_mem _)
    · rcases List.mem_cons.1 h with rfl | h
      · exact Or.inr List.mem_cons_self
      · exact (ih h).imp_right (List.mem_cons_of_mem _)

theorem mem_of_find? {t : BusyTable} {band : Band} {step : Number} {e : BusyEntry}
    (h : t.find? band step = some e) : e ∈ t.entries :=
  List.mem_of_find?_eq_some h

theorem isFor_of_find? {t : BusyTable} {band : Band} {step : Number} {e : BusyEntry}
    (h : t.find? band step = some e) : e.isFor band step := by
  rw [find?] at h
  simpa using List.find?_some h

/-- The same key finds the same entry. -/
theorem find?_congr (t : BusyTable) {band b : Band} {step s : Number}
    (h : band.sameKey b && step.same s) : t.find? band step = t.find? b s := by
  rw [Bool.and_eq_true, Band.sameKey_iff, Number.same_iff_key] at h
  have hfor : (fun e : BusyEntry => e.isFor band step) = fun e => e.isFor b s := by
    funext e
    rw [Bool.eq_iff_iff, BusyEntry.isFor_iff, BusyEntry.isFor_iff, h.1.1, h.1.2, h.2]
  rw [find?, find?, hfor]

/-! ### Detections -/

/-- The table after energy on a band at a threshold step. -/
def detected (t : BusyTable) (band : Band) (step now duration : Number) : BusyTable :=
  let found := detectionBeside (t.find? band step) band step now duration
  if found.isLatest then t.put found.entry else t

@[simp]
theorem resolution_detected (t : BusyTable) (band : Band) (step now duration : Number) :
    (t.detected band step now duration).resolution = t.resolution := by
  rw [detected]
  split <;> rfl

/-- A detection leaves the entry as it is or makes one for the band and the step. -/
theorem entry_beside (existing : Option BusyEntry) (band : Band) (step now duration : Number) :
    existing = some (detectionBeside existing band step now duration).entry ∧
        (detectionBeside existing band step now duration).isLatest = false ∨
      ((detectionBeside existing band step now duration).entry.band = band ∧
        (detectionBeside existing band step now duration).entry.step = step ∧
        (detectionBeside existing band step now duration).entry.busyEnd = now + duration) ∧
        (detectionBeside existing band step now duration).isLatest = true := by
  cases existing with
  | none => exact Or.inr ⟨⟨rfl, rfl, rfl⟩, rfl⟩
  | some e =>
    rw [detectionBeside.eq_def]
    dsimp only
    split
    · exact Or.inl ⟨rfl, rfl⟩
    · exact Or.inr ⟨⟨rfl, rfl, rfl⟩, rfl⟩

/-- The entry of a detection is one for its band and its step. -/
theorem isFor_beside (t : BusyTable) (band : Band) (step now duration : Number) :
    (detectionBeside (t.find? band step) band step now duration).entry.isFor band step := by
  rcases entry_beside (t.find? band step) band step now duration with ⟨h, -⟩ | ⟨⟨hb, hs, -⟩, -⟩
  · exact isFor_of_find? h
  · simp [BusyEntry.isFor_iff, hb, hs]

/-- A detection changes the entry of its own key only. -/
theorem find?_detected (t : BusyTable) (band b : Band) (step s now duration : Number) :
    (t.detected band step now duration).find? b s =
      if band.sameKey b && step.same s then
        some (detectionBeside (t.find? band step) band step now duration).entry
      else t.find? b s := by
  have hkey : ∀ e : BusyEntry, e.isFor band step → e.isFor b s = (band.sameKey b && step.same s) := by
    intro e he
    exact @BusyEntry.isFor_congr e ⟨band, step, 0, 0⟩ he b s
  have hfor := isFor_beside t band step now duration
  rw [detected]
  rcases entry_beside (t.find? band step) band step now duration with ⟨h, hl⟩ | ⟨-, hl⟩
  · -- the entry stays, so it is found wherever its key is asked for
    rw [hl, if_neg Bool.false_ne_true]
    split
    · next hsame => exact (find?_congr t hsame).symm.trans h
    · rfl
  · rw [hl, if_pos rfl, find?_put, hkey _ hfor]

/-- The end of a busy period is the latest of the detections that made it. -/
theorem busyEnd_beside {existing : Option BusyEntry} (band : Band) (step : Number)
    {now duration : Number} (he : ∀ e ∈ existing, e.busyEnd.isFinite)
    (hsum : (now + duration).isFinite) :
    ((detectionBeside existing band step now duration).entry.busyEnd = now + duration ∧
        ∀ e ∈ existing, e.busyEnd.value ≤ (now + duration).value) ∨
      ∃ e ∈ existing, (detectionBeside existing band step now duration).entry = e ∧
        (now + duration).value ≤ e.busyEnd.value := by
  cases existing with
  | none => exact Or.inl ⟨rfl, by simp⟩
  | some e =>
    have he := he e rfl
    rw [detectionBeside.eq_def]
    dsimp only
    split
    · next h => exact Or.inr ⟨e, rfl, rfl, (Number.le_iff hsum he).1 h⟩
    · next h =>
      rw [Number.le_iff hsum he, not_le] at h
      refine Or.inl ⟨rfl, fun e' he' => ?_⟩
      obtain rfl := Option.mem_some_iff.1 he'
      exact h.le

/-- A busy period begins with the detection or where it began before. -/
theorem busyStart_beside (existing : Option BusyEntry) (band : Band) (step now duration : Number) :
    (detectionBeside existing band step now duration).entry.busyStart = now ∨
      ∃ e ∈ existing, (detectionBeside existing band step now duration).entry.busyStart =
        e.busyStart := by
  cases existing with
  | none => exact Or.inl rfl
  | some e =>
    rw [detectionBeside.eq_def]
    dsimp only
    split
    · exact Or.inr ⟨e, rfl, rfl⟩
    · dsimp only
      split
      · exact Or.inr ⟨e, rfl, rfl⟩
      · exact Or.inl rfl

/-- The entry of a detection is sound if its sum did not go wrong. -/
theorem sound_beside {existing : Option BusyEntry} (band : Band) (step : Number)
    {now duration : Number} (he : ∀ e ∈ existing, e.Sound) (hnow : now.isFinite)
    (hsum : (now + duration).isFinite) (hle : now.value ≤ (now + duration).value) :
    (detectionBeside existing band step now duration).entry.Sound := by
  rcases busyEnd_beside band step (fun e h => (he e h).finite_end) hsum with
    ⟨hend, hall⟩ | ⟨e, h, heq, -⟩
  · rcases busyStart_beside existing band step now duration with hstart | ⟨e, h, hstart⟩
    · exact ⟨by rwa [hstart], by rwa [hend], by rwa [hstart, hend]⟩
    · obtain ⟨hfin, -, hse⟩ := he e h
      exact ⟨by rwa [hstart], by rwa [hend], by rw [hstart, hend]; exact hse.trans (hall e h)⟩
  · rw [heq]
    exact he e h

/-- All entries after a detection are entries from before or the one of the detection. -/
theorem mem_detected {t : BusyTable} {band : Band} {step now duration : Number} {e : BusyEntry}
    (h : e ∈ (t.detected band step now duration).entries) :
    e = (detectionBeside (t.find? band step) band step now duration).entry ∨ e ∈ t.entries := by
  rw [detected] at h
  split at h
  · exact mem_putIn h
  · exact Or.inr h

end BusyTable

end RadioOccupancy
