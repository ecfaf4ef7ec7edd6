import RadioOccupancy.Refusal

/-!
Everything that can go wrong in a request, whether the library refuses it or an observer fails.
-/

namespace RadioOccupancy

/-- A setting of a configuration that cannot be used. -/
inductive ConfigProblem where
  | thresholdResolution
  | defaultThreshold
deriving DecidableEq, Repr

/-- What is wrong with the setting. -/
def ConfigProblem.message : ConfigProblem → String
  | .thresholdResolution => "thresholdResolutionDbm must be a positive number"
  | .defaultThreshold => "defaultCcaThresholdDbm must be finite"

/-- A failed request. -/
inductive Fault where
  /-- the library refused it -/
  | refused (r : Refusal)
  | badConfig (problems : List ConfigProblem)
  | unknownPreset (name : String)
  | emptyRange (low high : Number)
  | logCapacity (size : Number)
  /-- more segments were asked for than a list can hold -/
  | tooManySegments
  /-- an observer failed on purpose -/
  | thrown (message : String)
  /-- observers called each other without end -/
  | endlessNesting
  /-- nothing has been created under the name -/
  | unknownName (name : String)

/-- What the caller is told. -/
def Fault.message : Fault → String
  | .refused r => r.message
  | .badConfig problems =>
    "Invalid PHY state configuration: " ++
      String.intercalate ", " (problems.map ConfigProblem.message)
  | .unknownPreset name => "Unknown PHY state preset: " ++ name
  | .emptyRange low high => "Invalid range: " ++ low.text ++ " > " ++ high.text
  | .logCapacity size => "Invalid log buffer size: " ++ size.text
  | .tooManySegments => "Invalid array length"
  | .thrown message => message
  | .endlessNesting => "Observers are nested too deeply"
  | .unknownName name => "Nothing is named " ++ name

namespace Number

/-- A number brought into a range by moving it to the nearer end. -/
def clamp (x low high : Number) : Except Fault Number :=
  if high < low then .error (.emptyRange low high)
  else .ok (minimum (maximum x low) high)

end Number

end RadioOccupancy
