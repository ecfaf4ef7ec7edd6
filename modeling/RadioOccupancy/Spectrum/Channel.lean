import RadioOccupancy.Fault

/-!
The layout of wide channels.

A channel is divided into sub-bands of one subcarrier spacing each, and a segment of it is a band of
one of the supported widths. The segments of one width tile the channel from its lowest frequency.
-/

namespace RadioOccupancy

namespace Channel

/-- The supported widths in megahertz. -/
def widths : List Number :=
  [20, 40, 80, 160]

/-- The subcarrier spacing that is used where none is given, in hertz. -/
def defaultSpacing : Number := 312500

/-- A supported width. -/
def isWidth (w : Number) : Bool :=
  widths.any fun allowed => allowed == w

/-- How many sub-bands a segment has. -/
def subBands (width spacing : Number) : Number :=
  width * 1e6 / spacing

/-- The segment with a given index among those of `width` in a channel. -/
def segment (channel width index spacing : Number) : Except Refusal Band :=
  if !isWidth channel || !isWidth width then .error ⟨"getBand", .width channel width⟩
  else if !index.isInteger || index < 0 then .error ⟨"getBand", .bandIndex index⟩
  else if channel < (index + 1) * width then
    .error ⟨"getBand", .doesNotFit index width channel⟩
  else
    let count := subBands width spacing
    if !count.isInteger || count < 1 then .error ⟨"getBand", .spacing spacing width⟩
    else
      let start := index * count
      .ok ⟨start, start + count - 1⟩

/-- The segment that a station of a wide channel listens on. -/
def primary (channel index spacing : Number) : Except Refusal Band :=
  segment channel 20 index spacing

/-- So many segments from an index on. The first that cannot be had decides. -/
def segmentsFrom (channel width spacing : Number) : (count index : Nat) → Except Refusal (List Band)
  | 0, _ => .ok []
  | count + 1, index => do
    let first ← segment channel width (Float.ofNat index) spacing
    let others ← segmentsFrom channel width spacing count (index + 1)
    return first :: others

/-- A list holds fewer segments than this. -/
def segmentLimit : Number := 4294967296

/-- All the segments of a width, lowest frequency first: as many as fit by width alone. -/
def segments (channel width spacing : Number) : Except Fault (List Band) :=
  let quotient := channel / width
  if segmentLimit ≤ quotient then .error .tooManySegments
  else (segmentsFrom channel width spacing quotient.floorNat 0).mapError .refused

end Channel

end RadioOccupancy
