import RadioOccupancy.Tracker.Transition

/-!
What a tracker can be asked at any time, also by its observers. A question changes nothing, but one
that is refused may leave a message in the log.
-/

namespace RadioOccupancy

namespace Query
open Planning

/-- The state of the radio on a band. -/
def state (config : Config) (now : Number) (on : Sensing) : Planning Radio.State := do
  checkTime "getState" now
  check (on.band.check "getState")
  stateOn now on.band (on.thresholdIn config)

/-- The time until the radio is idle on a band. That there is no answer is logged as well. -/
def timeToIdle (config : Config) (now : Number) (on : Sensing) : Planning Number := do
  checkTime "getDelayUntilIdle" now
  check (on.band.check "getDelayUntilIdle")
  let core ← core
  match core.record.timeToIdle core.table on.band (on.thresholdIn config) now with
  | .ok delay => return delay
  | .error r =>
    log ⟨.error, r.message, some [("operation", .text r.operation)]⟩
    throw r

/-- The time since the band was last sensed busy. -/
def timeSinceBusy (config : Config) (now : Number) (on : Sensing) : Planning Number := do
  checkTime "getDelaySinceIdle" now
  check (on.band.check "getDelaySinceIdle")
  let core ← core
  check (core.record.timeSinceBusy core.table on.band (on.thresholdIn config) now)

end Query

end RadioOccupancy
