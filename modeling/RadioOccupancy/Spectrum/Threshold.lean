import RadioOccupancy.Refusal

/-!
Detection thresholds are told apart only in steps of a resolution, so that thresholds that differ by
less can share what was detected.
-/

namespace RadioOccupancy

namespace Threshold

/-- The resolution that is used where none is given, in decibels. -/
def defaultResolution : Number := 0.01

/-- The nearest whole count of resolution steps, a half rounded up. It is infinite where the quotient
leaves the finite range. -/
def step (dbm resolution : Number) : Except Refusal Number :=
  if !dbm.isFinite then .error ⟨"quantizeThreshold", .threshold dbm⟩
  else if !resolution.isFinite || resolution ≤ 0 then
    .error ⟨"quantizeThreshold", .resolution resolution⟩
  else .ok (Number.roundHalfUp (dbm / resolution))

end Threshold

end RadioOccupancy
