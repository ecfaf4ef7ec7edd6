import RadioOccupancy.Duration
import RadioOccupancy.Session.Request

/-!
Answers to the questions that need no session.
-/

namespace RadioOccupancy

namespace Situation

/-- The busy table of a situation. -/
def table (s : Situation) : Except Refusal BusyTable := do
  let empty ← BusyTable.create s.resolution
  s.marks.foldlM (fun t m => do
    let (_, t) ← t.detect m.band m.threshold m.now m.duration
    return t) empty

/-- Looks at the record and the table of a situation. -/
def look {α : Type} (s : Situation)
    (question : Record → BusyTable → Band → Number → Number → Except Refusal α) :
    Except Fault α :=
  Except.mapError .refused do
    let table ← s.table
    question s.record table s.band s.threshold s.now

end Situation

/-- The answer to a question. -/
def Question.answer : Question → Except Fault Value
  | .isTime x => return .flag x.isTime
  | .clamp x low high => return .number (← Number.clamp x low high)
  | .durationText d => return .text (Duration.text d)
  | .thresholdSteps threshold resolution =>
    return .number (← (Threshold.step threshold resolution).mapError .refused)
  | .checkBand band operation => do
    (band.check operation).mapError .refused
    return .nothing
  | .isWidth width => return .flag (Channel.isWidth width)
  | .segment channel width index spacing =>
    return .band (← (Channel.segment channel width index spacing).mapError .refused)
  | .primarySegment channel index spacing =>
    return .band (← (Channel.primary channel index spacing).mapError .refused)
  | .segments channel width spacing => return .bands (← Channel.segments channel width spacing)
  | .sameBand a b => return .flag (a.sameEnds b)
  | .constants => return .constants {}
  | .createConfig overrides => return .config (← Config.create overrides)
  | .presetConfig name overrides => return .config (← Config.ofPreset name overrides)
  | .presetNames => return .texts (Config.presets.map (·.1))
  | .checkConfig config => do
    config.validate
    return .nothing
  | .state s => return .state (← s.look Record.stateOn)
  | .timeToIdle s => return .number (← s.look Record.timeToIdle)
  | .timeSinceBusy s => return .number (← s.look Record.timeSinceBusy)

end RadioOccupancy
