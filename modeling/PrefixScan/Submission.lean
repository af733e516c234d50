import PrefixScan.Cascade.Pass
import PrefixScan.Profile.Record

/-!
# Submissions

Work submitted to a device leaves a trail: log messages, kernel launches and profile lines, in the
order in which they happen. A submission is that trail together with the result of the work. If the
work stops with a fault, the trail up to the fault remains.

## Main definitions

* `Notice` — the log messages.
* `Launch` — a started kernel.
* `Event` — one entry of the trail.
* `Submission` — a trail and a result; submissions compose as a monad.
-/

namespace PrefixScan

/-- Log message. -/
inductive Notice
  /-- A cascade is about to be allocated. -/
  | allocating (layout : Cascade.Layout)
  /-- A hierarchical scan starts. -/
  | scanning (length : Size) (levels : Nat) (scratch : List Index)
  /-- A pass is about to be submitted. -/
  | submitting (pass : Cascade.Pass)
  /-- A scan by a single cube starts. -/
  | blockScan (length : Size) (iterations : Index)
  /-- The device could not time a submission. -/
  | noTiming (label : String)
deriving DecidableEq, Repr

namespace Notice

/-- The text of a message. -/
def message : Notice → String
  | .allocating layout => "Allocating scan cascade " ++ layout.describe
  | .scanning length levels scratch =>
    s!"Scanning {length.toNat} elements over {levels} levels with scratch " ++
      Text.list (scratch.map Text.word)
  | .submitting pass => s!"{pass.label} with {pass.cubeCount.toNat} cubes"
  | .blockScan length iterations =>
    s!"Block scan of {length.toNat} elements in {iterations.toNat} iterations"
  | .noTiming label => "No timing for " ++ label ++ ": NotRegistered"

/-- The severity of a message: scans and allocations are traced, submissions are for debugging. -/
def severity : Notice → String
  | .allocating _ | .scanning .. => "TRACE"
  | .submitting _ | .blockScan .. | .noTiming _ => "DEBUG"

/-- The message with its severity in front. -/
def text (notice : Notice) : String := notice.severity ++ " " ++ notice.message

end Notice

/-- The kernels of the library. -/
inductive Kernel
  /-- Scans blocks and stores their totals. -/
  | reduce
  /-- Combines blocks with the totals before them. -/
  | expand
  /-- Scans the start of a buffer with one cube. -/
  | block
  /-- Scans a range of a buffer with one cube. -/
  | direct
deriving DecidableEq, Repr

/-- The name of a kernel, before the name of its element type. -/
def Kernel.name : Kernel → String
  | .reduce => "scan_reduce_kernel"
  | .expand => "scan_expand_kernel"
  | .block => "scan_block_kernel"
  | .direct => "direct_scan"

/-- A started kernel. -/
structure Launch where
  kernel : Kernel
  cubeCount : Index
  cubeDim : Index
  /-- Lengths of its shared memories, outermost recursion level first. -/
  shared : List Index
deriving DecidableEq, Repr

/-- One entry of the trail of a submission. -/
inductive Event
  | notice (notice : Notice)
  | launch (launch : Launch)
  | profile (record : Profile.Record)
deriving DecidableEq, Repr

/-- The trail of some work, and its result. -/
structure Submission (β : Type) where
  events : List Event
  result : Except Fault β

namespace Submission

variable {β γ : Type}

/-- Work that leaves one entry in the trail. -/
def emit (event : Event) : Submission Unit := ⟨[event], .ok ()⟩

/-- Host arithmetic leaves no trail. -/
def ofResult (result : Except Fault β) : Submission β := ⟨[], result⟩

instance : Monad Submission where
  pure x := ⟨[], .ok x⟩
  bind first next :=
    match first.result with
    | .error fault => ⟨first.events, .error fault⟩
    | .ok x => ⟨first.events ++ (next x).events, (next x).result⟩

instance : MonadLift (Except Fault) Submission := ⟨ofResult⟩

end Submission

end PrefixScan
