import PrefixScan.Word

/-!
# Durations

A duration is a number of whole seconds and a number of nanoseconds below one second.

## Main definitions

* `Duration.ofParts` — a duration from seconds and any number of nanoseconds.
* `Duration.nanoseconds` — the whole duration, cut to a 64-bit word.
-/

namespace PrefixScan

/-- Nanoseconds in a second. -/
def nanosPerSecond : Nat := 1000000000

/-- A span of time. -/
structure Duration where
  seconds : Size
  nanos : Nat
  nanos_lt : nanos < nanosPerSecond

namespace Duration

/-- No time. -/
def zero : Duration := ⟨0, 0, by decide⟩

/-- The duration of `seconds` and `nanos`. Nanoseconds of a second and above are carried into the
seconds, which may overflow. -/
def ofParts (seconds : Size) (nanos : Index) : Except Fault Duration :=
  let carried := nanos.toNat / nanosPerSecond
  if seconds.uaddOverflow (BitVec.ofNat 64 carried) then .error .durationOverflow
  else
    .ok ⟨seconds + BitVec.ofNat 64 carried, nanos.toNat % nanosPerSecond,
      Nat.mod_lt _ (by decide)⟩

/-- The duration in nanoseconds, cut to the low 64 bits. -/
def nanoseconds (d : Duration) : Size :=
  BitVec.ofNat 64 (d.seconds.toNat * nanosPerSecond + d.nanos)

end Duration

end PrefixScan
