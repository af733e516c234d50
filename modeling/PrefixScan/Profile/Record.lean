import PrefixScan.Profile.Duration
import PrefixScan.Text.Fixed
import PrefixScan.Text.Record

/-!
# Profile records

A profile record is the timing of one submission: its start and end in nanoseconds since the
profiler was created, and its label. It is reported as one line.

## Main definitions

* `Profile.Record` — the timing.
* `Profile.Record.line` — the reported line: start and end in columns of eight, the label, and the
  duration in milliseconds with three places.
-/

namespace PrefixScan.Profile

/-- Timing of one submission. -/
structure Record where
  /-- Nanoseconds from the profiler's origin to the start. -/
  start : Size
  /-- Nanoseconds from the profiler's origin to the end. -/
  stop : Size
  label : String
deriving DecidableEq, Repr

namespace Record

/-- The record of a submission that spans `start` to `stop`. -/
def ofSpan (label : String) (start stop : Duration) : Record :=
  ⟨start.nanoseconds, stop.nanoseconds, label⟩

variable (record : Record)

/-- Nanoseconds from start to end, none for an end before the start. -/
def nanoseconds : Nat := record.stop.toNat - record.start.toNat

/-- The duration in milliseconds, in binary64: the nanoseconds rounded to binary64, times the
binary64 number nearest to `10 ^ -6`. -/
def milliseconds : Float := (UInt64.ofNat record.nanoseconds).toFloat * 1e-6

/-- The reported line. -/
def line : String :=
  "[profile] " ++ Text.padLeft 8 (Text.word record.start) ++ " " ++
    Text.padLeft 8 (Text.word record.stop) ++ " " ++ record.label ++ ": " ++
    Text.fixed 3 record.milliseconds ++ "ms"

end Record

end PrefixScan.Profile
