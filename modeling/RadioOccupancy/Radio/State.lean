/-!
The operating states of a radio.
-/

namespace RadioOccupancy

/-- The operating state of a radio on one band. It is derived from what the radio has been told and
never stored. -/
inductive Radio.State where
  | idle
  | ccaBusy
  | tx
  | rx
  | switching
  | sleep
  | off
deriving DecidableEq, Repr

namespace Radio.State

/-- All states, in the order in which they are listed. -/
def all : List Radio.State :=
  [.idle, .ccaBusy, .tx, .rx, .switching, .sleep, .off]

/-- The name of a state in messages, events and answers. -/
def name : Radio.State → String
  | .idle => "IDLE"
  | .ccaBusy => "CCA_BUSY"
  | .tx => "TX"
  | .rx => "RX"
  | .switching => "SWITCHING"
  | .sleep => "SLEEP"
  | .off => "OFF"

/-- Sleeping and powered off have no scheduled end. -/
def isPowerSaving : Radio.State → Bool
  | .sleep | .off => true
  | _ => false

end Radio.State

end RadioOccupancy
