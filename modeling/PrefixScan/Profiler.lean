import PrefixScan.Device
import PrefixScan.Submission

/-!
# Profiler

A profiler wraps submissions. When it is enabled and the device can time its work, each submission
is followed by a profile line; when the device cannot, by a log message. The work itself is the
same in all cases. The clock of the device stands still and its origin lies before that of the
profiler, so a span begins and ends at zero.

## Main definitions

* `Profiler.submit` — runs work and reports its timing.
-/

namespace PrefixScan

/-- Reports the timing of submissions. -/
structure Profiler where
  enabled : Bool
deriving DecidableEq, Repr

/-- Runs `work` once on `state`, and reports its timing under `label` when profiling. -/
def Profiler.submit {σ : Type} (profiler : Profiler) (device : Device) (label : String)
    (work : σ → Submission σ) (state : σ) : Submission σ :=
  if profiler.enabled then do
    let state ← work state
    if device.timing then
      Submission.emit (.profile (.ofSpan label .zero .zero))
    else
      Submission.emit (.notice (.noTiming label))
    return state
  else work state

end PrefixScan
