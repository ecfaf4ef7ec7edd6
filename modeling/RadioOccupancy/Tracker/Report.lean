import RadioOccupancy.Tracker.Plan

/-!
The states that a radio went through are reported afterwards, as segments of time that follow each
other from where the last report ended.

First come the radio's own activities as they ran: at each instant the one that masks the others, and
an activity that outlives the one that masked it is reported from there on. Then comes the busy
period of the band that is asked about, and the rest is idle. While the radio is asleep or off,
nothing else shows.
-/

namespace RadioOccupancy

/-- A stretch of time in one state. -/
structure Segment where
  start : Number
  stop : Number
  state : Radio.State
deriving DecidableEq, Repr

namespace Segment

/-- No time passes in the segment. -/
def isEmpty (s : Segment) : Bool :=
  s.stop ≤ s.start

/-- The trace event that reports a segment. -/
def event (s : Segment) : TraceEvent :=
  .stateChange s.start (s.stop - s.start) s.state

end Segment

namespace Report

/-- The first activity that is running at `t`, and the activities without it. -/
def firstRunning? (t : Number) : List Activity → Option (Activity × List Activity)
  | [] => none
  | a :: rest =>
    if a.interval.isRunning t then some (a, rest)
    else (firstRunning? t rest).map fun (b, others) => (b, a :: others)

theorem length_of_firstRunning? {t : Number} {pending : List Activity} {a : Activity}
    {others : List Activity} (h : firstRunning? t pending = some (a, others)) :
    others.length < pending.length := by
  induction pending generalizing others with
  | nil => simp [firstRunning?] at h
  | cons b rest ih =>
    rw [firstRunning?] at h
    split at h
    · simp only [Option.some.injEq, Prod.mk.injEq] at h
      simp [← h.2]
    · cases hr : firstRunning? t rest with
      | none => simp [hr] at h
      | some found =>
        obtain ⟨c, cs⟩ := found
        simp only [hr, Option.map_some, Option.some.injEq, Prod.mk.injEq] at h
        rw [h.1] at hr
        have := ih hr
        simp [← h.2, this]

/-- The segments of the radio's own activities from `t` on, up to `now`. An activity that has been
reported has run out, so it is not looked at again. -/
def ownSegments (now : Number) (pending : List Activity) (t : Number) : List Segment :=
  if t < now then
    match _h : firstRunning? t pending with
    | some (a, others) =>
      let stop := a.interval.stop.minimum now
      ⟨t, stop, a.state⟩ :: ownSegments now others stop
    | none => []
  else []
termination_by pending.length
decreasing_by exact length_of_firstRunning? _h

/-- Where segments that begin at `t` end. -/
def reach (t : Number) (segments : List Segment) : Number :=
  (segments.getLast?.map Segment.stop).getD t

/-- The segments after the radio's own activities, from `t` to `now`: idle but for the busy period
that is known for the band. -/
def bandSegments (entry : Option BusyEntry) (t now : Number) : List Segment :=
  match entry with
  | some e =>
    if t < e.busyEnd && e.busyStart < now then
      let busyStart := t.maximum e.busyStart
      let busyEnd := e.busyEnd.minimum now
      [⟨t, busyStart, .idle⟩, ⟨busyStart, busyEnd, .ccaBusy⟩, ⟨busyEnd, now, .idle⟩]
    else [⟨t, now, .idle⟩]
  | none => [⟨t, now, .idle⟩]

end Report

namespace Planning

/-- Reports a segment, unless no time passes in it. -/
def reportSegment (s : Segment) : Planning Unit :=
  if s.isEmpty then return () else announce [.trace s.event]

/-- Reports segments without moving the cursor. -/
def reportSegments : List Segment → Planning Unit
  | [] => return ()
  | s :: rest => do
    reportSegment s
    reportSegments rest

/-- Reports segments and moves the cursor to the end of each as soon as it is reported. -/
def reportProgress : List Segment → Planning Unit
  | [] => return ()
  | s :: rest => do
    reportSegment s
    change (.reported s.stop)
    reportProgress rest

/-- Reports the radio's own activities up to `now` and answers how far that got. -/
def reportOwn (now : Number) : Planning Number := do
  let core ← core
  let segments := Report.ownSegments now core.record.activities core.cursor
  reportProgress segments
  return Report.reach core.cursor segments

/-- Reports all states up to `now` as they show on a band, and moves the cursor there. -/
def reportUntil (now : Number) (band : Band) (threshold : Number) : Planning Unit := do
  let before ← core
  if now ≤ before.cursor then return ()
  match before.record.powerState? with
  | some state => reportSegment ⟨before.cursor, now, state⟩
  | none =>
    let t ← reportOwn now
    let entry ← check (before.table.get band threshold)
    reportSegments (Report.bandSegments entry t now)
  change (.reported now)

end Planning

end RadioOccupancy
