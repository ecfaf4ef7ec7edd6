import RadioOccupancy.Fault
import RadioOccupancy.Spectrum.Threshold

/-!
The settings of a tracker, and named presets of them.

A preset and the overrides of a caller each fix some of the settings; the overrides win over the
preset, and the preset over the defaults.
-/

namespace RadioOccupancy

/-- The settings of a tracker. -/
structure Config where
  /-- the step in which thresholds are told apart -/
  thresholdResolution : Number := Threshold.defaultResolution
  /-- transitions are logged too, not only refusals -/
  verbose : Bool := false
  /-- the threshold of requests that name none; its default is the sensitivity for a preamble on a
  20 MHz channel -/
  defaultThreshold : Number := -82
deriving DecidableEq, Repr

/-- Some of the settings. -/
structure Overrides where
  thresholdResolution : Option Number := none
  verbose : Option Bool := none
  defaultThreshold : Option Number := none
deriving DecidableEq, Repr

namespace Overrides

/-- The settings of both; where both fix one, the later wins. -/
def merge (earlier later : Overrides) : Overrides where
  thresholdResolution := later.thresholdResolution <|> earlier.thresholdResolution
  verbose := later.verbose <|> earlier.verbose
  defaultThreshold := later.defaultThreshold <|> earlier.defaultThreshold

/-- The overrides put over a configuration. -/
def applyTo (o : Overrides) (c : Config) : Config where
  thresholdResolution := o.thresholdResolution.getD c.thresholdResolution
  verbose := o.verbose.getD c.verbose
  defaultThreshold := o.defaultThreshold.getD c.defaultThreshold

end Overrides

namespace Config

/-- What is wrong with a configuration. -/
def problems (c : Config) : List ConfigProblem :=
  (if !c.thresholdResolution.isFinite || c.thresholdResolution ≤ 0 then [.thresholdResolution]
    else []) ++
  (if !c.defaultThreshold.isFinite then [.defaultThreshold] else [])

/-- Refuses a configuration that has problems and names all of them. -/
def validate (c : Config) : Except Fault Unit :=
  match c.problems with
  | [] => .ok ()
  | problems => .error (.badConfig problems)

/-- The configuration that overrides stand for. -/
def create (o : Overrides) : Except Fault Config := do
  let config := o.applyTo {}
  config.validate
  return config

/-- The presets that are offered, in the order in which they are listed. -/
def presets : List (String × Overrides) :=
  [("default", {}),
   ("debug", { verbose := some true }),
   ("coarse", { thresholdResolution := some 1 })]

/-- Further names that are accepted without being offered; each of them fixes nothing. -/
def silentPresets : List String :=
  ["constructor", "__defineGetter__", "__defineSetter__", "hasOwnProperty", "__lookupGetter__",
   "__lookupSetter__", "isPrototypeOf", "propertyIsEnumerable", "toString", "valueOf", "__proto__",
   "toLocaleString"]

/-- The settings that a preset fixes. -/
def preset? (name : String) : Option Overrides :=
  if silentPresets.contains name then some {} else presets.lookup name

/-- The configuration that a preset with overrides stands for. -/
def ofPreset (name : String) (o : Overrides) : Except Fault Config :=
  match preset? name with
  | some preset => create (preset.merge o)
  | none => .error (.unknownPreset name)

end Config

end RadioOccupancy
