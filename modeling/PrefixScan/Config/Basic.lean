import PrefixScan.Error
import PrefixScan.Text.Record

/-!
# Scan configuration

A configuration says how many elements a cube scans per pass, how many units a cube has, and whether
passes are profiled. It is checked against the plane dimension of a device before use.

## Main definitions

* `Config` — the configuration and its default values, `Config.standard` all of them together.
* `Config.defect?` — the first reason why a configuration does not fit a plane dimension.
* `Config.validate` — the same as an error.
* `Config.overrideProfiling` — the profiling switch taken from the environment.
-/

namespace PrefixScan

/-- Configuration of the hierarchical scan. -/
structure Config where
  /-- Number of elements that one cube scans in a pass. -/
  granularity : Index := 512
  /-- Number of units in a cube. -/
  cubeDim : Index := 256
  /-- Whether passes are timed and reported. -/
  profiling : Bool := false
deriving DecidableEq, Repr

namespace Config

/-- The configuration with default values throughout. -/
def standard : Config := {}

/-- Why a configuration does not fit a device. -/
inductive Defect
  /-- The cube scan divides its range by the plane dimension at every level, so planes of fewer
  than two units would not shrink it. -/
  | planeDim (planeDim : Index)
  /-- A cube is not made of whole planes. -/
  | cubeDim (cubeDim planeDim : Index)
  /-- A block is not made of whole planes. -/
  | granularity (granularity planeDim : Index)
deriving DecidableEq, Repr

/-- The text of a defect. -/
def Defect.reason : Defect → String
  | .planeDim plane => s!"the plane dimension {plane.toNat} must be at least 2"
  | .cubeDim cube plane =>
    s!"cube dim {cube.toNat} must be a positive multiple of the plane dimension {plane.toNat}"
  | .granularity block plane =>
    s!"granularity {block.toNat} must be a multiple of the plane dimension {plane.toNat}, " ++
      "at least 2"

variable (config : Config)

/-- The first reason why the configuration cannot be used with planes of `planeDim` units. -/
def defect? (planeDim : Index) : Option Defect :=
  if planeDim < 2 then some (.planeDim planeDim)
  else if config.cubeDim = 0 ∨ config.cubeDim % planeDim ≠ 0 then
    some (.cubeDim config.cubeDim planeDim)
  else if config.granularity < 2 ∨ config.granularity % planeDim ≠ 0 then
    some (.granularity config.granularity planeDim)
  else none

/-- Checks that the configuration can be used with planes of `planeDim` units. -/
def validate (planeDim : Index) : Except ScanError Unit :=
  match config.defect? planeDim with
  | some defect => .error (.invalidConfig defect.reason)
  | none => .ok ()

/-- The configuration under a value of the profiling variable: `1` and `true` switch profiling on,
`0` and `false` switch it off, anything else leaves it alone. -/
def overrideProfiling (value : Option String) : Config :=
  match value with
  | some "1" | some "true" => { config with profiling := true }
  | some "0" | some "false" => { config with profiling := false }
  | _ => config

/-- The configuration under the bytes of the profiling variable. Bytes that are no UTF-8 text count
as an absent variable. -/
def overrideProfilingBytes (value : Option ByteArray) : Config :=
  config.overrideProfiling (value.bind String.fromUTF8?)

/-- The configuration as a record. -/
def describe : String :=
  Text.record "ScanConfig" [
    ("granularity", Text.word config.granularity),
    ("cube_dim", Text.word config.cubeDim),
    ("profiling", Text.record "ProfilingConfig" [("enabled", toString config.profiling)])]

end Config

end PrefixScan
