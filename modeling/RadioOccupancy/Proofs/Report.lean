import RadioOccupancy.Proofs.Planning
import RadioOccupancy.Proofs.Segments

/-!
What a report draws up.

A report up to now tells of the radio's own activities first and of the band from where these end, and
then moves the cursor to now (`draws_reportUntil`). If the entry of the band cannot be had, it stops
between the two (`draws_reportUntil_error`).
-/

namespace RadioOccupancy

namespace Core
open Report

/-- The segments in which the radio was busy by itself, from the cursor to `now`. -/
def ownSegments (core : Core) (now : Number) : List Segment :=
  Report.ownSegments now core.record.activities core.cursor

/-- How far the radio's own activities reach from the cursor on. -/
def ownReach (core : Core) (now : Number) : Number :=
  reach core.cursor (core.ownSegments now)

/-- The segments from the cursor to `now` on the band of a busy entry. -/
def segmentsUntil (core : Core) (entry : Option BusyEntry) (now : Number) : List Segment :=
  if now ≤ core.cursor then []
  else match core.record.powerState? with
    | some state => [⟨core.cursor, now, state⟩]
    | none => core.ownSegments now ++ bandSegments entry (core.ownReach now) now

/-- The cursor after a report up to `now`, which never moves it back. -/
def cursorUntil (core : Core) (now : Number) : Number :=
  if now ≤ core.cursor then core.cursor else now

end Core

namespace Report

/-- What observers are told of segments. -/
def notices (segments : List Segment) : List Notice :=
  (segments.filter fun s => !s.isEmpty).map fun s => .trace s.event

theorem notices_append (ss us : List Segment) : notices (ss ++ us) = notices ss ++ notices us := by
  simp [notices]

end Report

/-! ### What the parts of a report draw up -/

namespace Planning
open Report

theorem draws_reportSegment (s : Segment) (core : Core) :
    Draws (reportSegment s) core (.ok ()) core (notices [s]) := by
  rw [reportSegment]
  split
  · next h =>
    have : notices [s] = [] := by simp [notices, h]
    rw [this]
    exact draws_pure () core
  · next h =>
    have : notices [s] = [.trace s.event] := by simp [notices, h]
    rw [this]
    exact draws_announce _ core

theorem draws_reportSegments (segments : List Segment) (core : Core) :
    Draws (reportSegments segments) core (.ok ()) core (notices segments) := by
  induction segments with
  | nil => exact draws_pure () core
  | cons s rest ih =>
    rw [show s :: rest = [s] ++ rest from rfl, notices_append]
    exact (draws_reportSegment s core).bind ih

theorem draws_reportProgress (segments : List Segment) (core : Core) :
    Draws (reportProgress segments) core (.ok ())
      { core with cursor := reach core.cursor segments } (notices segments) := by
  induction segments generalizing core with
  | nil => exact draws_pure () core
  | cons s rest ih =>
    rw [show s :: rest = [s] ++ rest from rfl, notices_append, List.singleton_append, reach_cons]
    exact (draws_reportSegment s core).bind (draws_change_bind (ih _))

theorem draws_reportOwn (now : Number) (core : Core) :
    Draws (reportOwn now) core (.ok (core.ownReach now)) { core with cursor := core.ownReach now }
      (notices (core.ownSegments now)) := by
  rw [← List.append_nil (notices _)]
  exact draws_core_bind ((draws_reportProgress _ core).bind (draws_pure _ _))

variable {core : Core} {band : Band} {threshold now : Number}

/-- A report up to `now` needs the entry of the band only where the radio is awake and time has
passed. -/
theorem draws_reportUntil {entry : Option BusyEntry}
    (h : ¬now ≤ core.cursor → core.record.powerState? = none →
      core.table.get band threshold = .ok entry) :
    Draws (reportUntil now band threshold) core (.ok ())
      { core with cursor := core.cursorUntil now } (notices (core.segmentsUntil entry now)) := by
  refine draws_core_bind ?_
  rw [Core.cursorUntil, Core.segmentsUntil]
  split
  · exact draws_pure () core
  · next hnow =>
    cases hp : core.record.powerState? with
    | some state =>
      rw [← List.append_nil (notices _)]
      exact (draws_reportSegment _ core).bind (draws_change (.reported now) core)
    | none =>
      dsimp only
      rw [h hnow hp, notices_append, ← List.append_nil (notices (bandSegments ..))]
      refine (draws_reportOwn now core).bind (draws_check_bind ?_)
      exact (draws_reportSegments _ _).bind (draws_change (.reported now) _)

/-- Where the entry of the band cannot be had, the radio's own activities have been reported by
then. -/
theorem draws_reportUntil_error {r : Refusal} (hnow : ¬now ≤ core.cursor)
    (hp : core.record.powerState? = none) (h : core.table.get band threshold = .error r) :
    Draws (reportUntil now band threshold) core (.error r)
      { core with cursor := core.ownReach now } (notices (core.ownSegments now)) := by
  refine draws_core_bind ?_
  rw [if_neg hnow, hp]
  dsimp only
  rw [h, ← List.append_nil (notices _)]
  exact (draws_reportOwn now core).bind (draws_check _ _).bind_error

end Planning

end RadioOccupancy
