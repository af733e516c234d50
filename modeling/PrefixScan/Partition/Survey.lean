import PrefixScan.Partition.Device
import PrefixScan.Transfer

/-!
# Surveys of a partition

A survey runs one cube over a partition and has every unit record its visits. The records are
buffers of words, one entry per item, and are read back from the device. A probe records what the
units of a cube compute for a single iteration.

## Main definitions

* `Partition.Survey`, `Partition.survey` — the visits of a whole sweep, by item.
* `Partition.Probe`, `Partition.probe` — one iteration, by unit.
-/

namespace PrefixScan.Partition

/-- Where a kernel takes its iteration count from. -/
inductive Counting
  /-- The range is known when the kernel is expanded, and the count with it. -/
  | expanded
  /-- The range is an argument of the kernel, and the device computes the count. -/
  | computed
deriving DecidableEq, Repr

/-- What a sweep recorded. -/
structure Survey where
  /-- Number of visits, by item. -/
  counts : List Nat
  /-- Iteration and unit of the last visit, by item. -/
  places : List (Index × Index)
  /-- The iteration count as the device computes it. -/
  iterations : Index
deriving DecidableEq, Repr

/-- What the units of a cube computed for one iteration. -/
structure Probe where
  /-- Item numbers, by unit. -/
  items : List Index
  /-- Whether the item falls in the range, by unit. -/
  inside : List Bool
  /-- The iteration count as the device computes it. -/
  iterations : Index
deriving DecidableEq, Repr

/-- Size in bytes of an entry of the records. -/
def entrySize : Size := 4

variable (p : Partition)

/-- Number of iterations of a kernel over the partition. -/
def iterations : Counting → Except Fault Index
  | .expanded => p.numIterations
  | .computed => .ok p.runtimeIterations

/-- The records of a sweep of one cube. -/
def survey (counting : Counting) : Except Fault Survey := do
  let visits := p.sweep (← p.iterations counting)
  let counts ← readBack entrySize (p.tally visits)
  let places ← readBack entrySize (p.places visits)
  return ⟨counts, places, p.runtimeIterations⟩

/-- The records of one iteration of a cube of `units` units. -/
def probe (units : Nat) (iteration : Index) : Except Fault Probe := do
  let units := (List.range units).map (BitVec.ofNat 32)
  let items ← readBack entrySize (units.map (p.slot iteration))
  let inside ← readBack entrySize (units.map (p.covers iteration))
  return ⟨items, inside, p.runtimeIterations⟩

end PrefixScan.Partition
