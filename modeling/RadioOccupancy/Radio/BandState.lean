import RadioOccupancy.Radio.BusyTable
import RadioOccupancy.Radio.Record

/-!
The state of a radio on a band, and the times to and from its idleness.

The first matching rule decides: what the radio does by itself masks energy on the band, and energy
counts only on the band and at the threshold that is asked about.
-/

namespace RadioOccupancy

namespace Record

/-- The state of the radio on a band at `now`. The threshold is looked at only if the radio does
nothing by itself. -/
def stateOn (r : Record) (table : BusyTable) (band : Band) (threshold now : Number) :
    Except Refusal Radio.State :=
  match r.ownState? now with
  | some s => .ok s
  | none => do
    let busy ← table.isBusyAt band threshold now
    return if busy then .ccaBusy else .idle

/-- The ends of the radio's own activities. -/
def ends (r : Record) : List Number :=
  [r.switching.stop, r.tx.stop, r.rx.stop]

/-- The time until the last of the running activities and busy periods ends. Sleep and power off
have no end, so nothing can be said while they last. -/
def timeToIdle (r : Record) (table : BusyTable) (band : Band) (threshold now : Number) :
    Except Refusal Number := do
  let state ← r.stateOn table band threshold now
  if state.isPowerSaving then .error ⟨"getDelayUntilIdle", .idleUndefined state⟩
  let entry ← table.get band threshold
  let ends := r.ends ++ entry.toList.map BusyEntry.busyEnd
  return ends.foldl (fun longest stop => longest.maximum (stop - now)) 0

/-- The time since the energy on a band ended, or since the latest transition where none was ever
detected. -/
def timeSinceBusy (r : Record) (table : BusyTable) (band : Band) (threshold now : Number) :
    Except Refusal Number := do
  let entry ← table.get band threshold
  let idleSince := (entry.map BusyEntry.busyEnd).getD r.lastChange
  return Number.maximum 0 (now - idleSince)

end Record

end RadioOccupancy
