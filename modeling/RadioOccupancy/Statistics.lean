import RadioOccupancy.Fault
import RadioOccupancy.Observer.Notice

/-!
Totals over the trace events of a radio: the time it spent in each state and the packets it sent,
received and lost.
-/

namespace RadioOccupancy

/-- A value for each state of a radio. -/
structure PerState (α : Type) where
  idle : α
  ccaBusy : α
  tx : α
  rx : α
  switching : α
  sleep : α
  off : α
deriving DecidableEq, Repr

namespace PerState

variable {α : Type}

/-- The same value for every state. -/
def const (a : α) : PerState α :=
  ⟨a, a, a, a, a, a, a⟩

/-- The value for a state. -/
def get (p : PerState α) : Radio.State → α
  | .idle => p.idle
  | .ccaBusy => p.ccaBusy
  | .tx => p.tx
  | .rx => p.rx
  | .switching => p.switching
  | .sleep => p.sleep
  | .off => p.off

/-- Changes the value for one state. -/
def modify (p : PerState α) (s : Radio.State) (f : α → α) : PerState α :=
  match s with
  | .idle => { p with idle := f p.idle }
  | .ccaBusy => { p with ccaBusy := f p.ccaBusy }
  | .tx => { p with tx := f p.tx }
  | .rx => { p with rx := f p.rx }
  | .switching => { p with switching := f p.switching }
  | .sleep => { p with sleep := f p.sleep }
  | .off => { p with off := f p.off }

theorem get_modify (p : PerState α) (s t : Radio.State) (f : α → α) :
    (p.modify s f).get t = if t = s then f (p.get t) else p.get t := by
  cases s <;> cases t <;> simp [modify, get]

end PerState

/-- Totals over trace events. -/
structure Statistics where
  timePerState : PerState Number := .const 0
  segmentsPerState : PerState Nat := .const 0
  totalTime : Number := 0
  sent : Nat := 0
  received : Nat := 0
  lost : Nat := 0
deriving DecidableEq, Repr

namespace Statistics

/-- The totals after one more event. -/
def add (s : Statistics) : TraceEvent → Statistics
  | .stateChange _ duration state =>
    { s with
      timePerState := s.timePerState.modify state fun t => t + duration
      segmentsPerState := s.segmentsPerState.modify state fun n => n + 1
      totalTime := s.totalTime + duration }
  | .tx .. => { s with sent := s.sent + 1 }
  | .rxOk .. => { s with received := s.received + 1 }
  | .rxError .. => { s with lost := s.lost + 1 }

/-- The share of the reported time in which the radio was not idle. -/
def occupancy (s : Statistics) : Except Fault Number :=
  if s.totalTime == 0 then .ok 0
  else Number.clamp ((s.totalTime - s.timePerState.idle) / s.totalTime) 0 1

end Statistics

end RadioOccupancy
