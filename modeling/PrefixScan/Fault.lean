/-!
# Faults of the host

Host arithmetic is checked: an operation whose exact result does not fit its word, a division by
zero, or an index past the end of a list stops the computation with a `Fault`, and so do bytes that
cannot be taken as elements. Device arithmetic never faults, it wraps.

## Main definitions

* `Fault` — the causes.
* `Fault.message` — the text of each cause.
-/

namespace PrefixScan

/-- Why a host computation stopped. -/
inductive Fault
  /-- A sum does not fit its word. -/
  | addOverflow
  /-- A difference would be negative. -/
  | subtractOverflow
  /-- A product does not fit its word. -/
  | multiplyOverflow
  /-- A quotient by zero. -/
  | divideByZero
  /-- A remainder by zero. -/
  | remainderByZero
  /-- Position `index` of a list of `len` entries. -/
  | indexOutOfBounds (len index : Nat)
  /-- The whole seconds of a duration do not fit their word. -/
  | durationOverflow
  /-- Bytes are taken as elements whose alignment they lack. -/
  | misaligned
deriving DecidableEq, Repr

/-- The text reported for a fault. -/
def Fault.message : Fault → String
  | .addOverflow => "attempt to add with overflow"
  | .subtractOverflow => "attempt to subtract with overflow"
  | .multiplyOverflow => "attempt to multiply with overflow"
  | .divideByZero => "attempt to divide by zero"
  | .remainderByZero => "attempt to calculate the remainder with a divisor of zero"
  | .indexOutOfBounds len index =>
    s!"index out of bounds: the len is {len} but the index is {index}"
  | .durationOverflow => "overflow in Duration::new"
  | .misaligned => "cast_slice>TargetAlignmentGreaterAndInputNotAligned"

end PrefixScan
