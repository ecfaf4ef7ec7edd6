import RadioOccupancy.Spectrum.Threshold

/-!
When energy was last detected, per band and detection threshold.

A table holds one entry for each band and threshold step on which energy was ever recorded, in the
order of first detection. The end of an entry only moves forward, so detections that overlap or
arrive late add up to the longest one.
-/

namespace RadioOccupancy

/-- The latest busy period of a band at a threshold step. -/
structure BusyEntry where
  band : Band
  step : Number
  busyStart : Number
  busyEnd : Number
deriving DecidableEq, Repr

/-- The entry is the one kept for this band and step. -/
def BusyEntry.isFor (e : BusyEntry) (band : Band) (step : Number) : Bool :=
  e.band.sameKey band && e.step.same step

/-- Entries in the order of first detection, at one threshold resolution. -/
structure BusyTable where
  resolution : Number
  entries : List BusyEntry
deriving DecidableEq, Repr

/-- What a detection of energy comes to. -/
structure Detection where
  /-- it ends later than all before it -/
  isLatest : Bool
  /-- the entry was busy when it began -/
  foundBusy : Bool
  /-- the entry afterwards -/
  entry : BusyEntry
deriving DecidableEq, Repr

namespace BusyTable

/-- An empty table. Its resolution has to be usable for every threshold. -/
def create (resolution : Number) : Except Refusal BusyTable := do
  let _ ← Threshold.step 0 resolution
  return ⟨resolution, []⟩

/-- The entry for a band and a threshold step. -/
def find? (t : BusyTable) (band : Band) (step : Number) : Option BusyEntry :=
  t.entries.find? fun e => e.isFor band step

/-- The entry for a band and a threshold. -/
def get (t : BusyTable) (band : Band) (threshold : Number) : Except Refusal (Option BusyEntry) := do
  let step ← Threshold.step threshold t.resolution
  return t.find? band step

/-- Energy is still being detected at `now`. -/
def isBusyAt (t : BusyTable) (band : Band) (threshold now : Number) : Except Refusal Bool := do
  let entry ← t.get band threshold
  return entry.any fun e => now < e.busyEnd

/-- Puts an entry into a list: in the place of the one for the same key, or else at the end. -/
def putIn (entry : BusyEntry) : List BusyEntry → List BusyEntry
  | [] => [entry]
  | e :: rest =>
    if e.isFor entry.band entry.step then entry :: rest else e :: putIn entry rest

/-- The table with an entry put in. -/
def put (t : BusyTable) (entry : BusyEntry) : BusyTable :=
  { t with entries := putIn entry t.entries }

/-- What a detection of `duration` from `now` comes to beside the entry of its key, which may be
missing. A detection that ends no later changes nothing. A later one prolongs a busy period that is
still running and else begins a new one. -/
def detectionBeside (existing : Option BusyEntry) (band : Band) (step now duration : Number) :
    Detection :=
  let busyEnd := now + duration
  match existing with
  | none => ⟨true, false, ⟨band, step, now, busyEnd⟩⟩
  | some e =>
    let running : Bool := now < e.busyEnd
    if busyEnd ≤ e.busyEnd then ⟨false, running, e⟩
    else ⟨true, running, ⟨band, step, if running then e.busyStart else now, busyEnd⟩⟩

/-- What energy on a band from `now` for `duration` comes to. -/
def detection (t : BusyTable) (band : Band) (threshold now duration : Number) :
    Except Refusal Detection := do
  let step ← Threshold.step threshold t.resolution
  return detectionBeside (t.find? band step) band step now duration

/-- Records energy on a band from `now` for `duration`. -/
def detect (t : BusyTable) (band : Band) (threshold now duration : Number) :
    Except Refusal (Detection × BusyTable) := do
  let d ← t.detection band threshold now duration
  return (d, if d.isLatest then t.put d.entry else t)

end BusyTable

end RadioOccupancy
