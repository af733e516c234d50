import PrefixScan.Word

/-!
# Errors of a scan

All preconditions of a scan are checked before anything is submitted to the device. An error says
which check failed.

## Main definitions

* `ScanError` — the causes, with the offending values.
* `ScanError.message` — the text of each cause.
-/

namespace PrefixScan

/-- Why a scan is refused. -/
inductive ScanError
  /-- The device has no plane instructions. -/
  | planesUnavailable
  /-- The device reports a range of plane dimensions, so scratch memory cannot be sized ahead of
  time. -/
  | imprecisePlaneDim
  /-- The configuration does not fit the device. -/
  | invalidConfig (reason : String)
  /-- The length is zero or no multiple of the granularity, or the granularity is below two. -/
  | invalidLength (length : Size) (granularity : Index)
  /-- The cascade belongs to another length or granularity. Both pairs hold a length and a
  granularity. -/
  | cascadeMismatch (expected actual : Size × Size)
  /-- The configuration could not be read. -/
  | config (reason : String)
deriving DecidableEq, Repr

/-- The text reported for an error. -/
def ScanError.message : ScanError → String
  | .planesUnavailable => "Unable to launch scan because planes are unavailable"
  | .imprecisePlaneDim =>
    "Unable to launch scan because the plane dimension of the device varies"
  | .invalidConfig reason => "Invalid scan configuration: " ++ reason
  | .invalidLength length granularity =>
    s!"Unable to scan a buffer of {length.toNat} elements with granularity {granularity.toNat}, " ++
      "the length must be a non-zero multiple of a granularity of at least 2"
  | .cascadeMismatch expected actual =>
    s!"The cascade was allocated for {actual.1.toNat} elements with granularity " ++
      s!"{actual.2.toNat}, but the scan expects {expected.1.toNat} elements with granularity " ++
      s!"{expected.2.toNat}"
  | .config reason => "Unable to load the scan configuration: " ++ reason

end PrefixScan
