import PrefixScan.Partition.Basic

/-!
# Partitions on the device

A running unit computes its items with 32-bit arithmetic that wraps. The iteration count is either
known when the kernel is expanded (`Partition.numIterations`) or computed on the device
(`Partition.runtimeIterations`).

## Main definitions

* `Partition.slot` — the item number a unit computes.
* `Partition.covers` — the guard under which the unit acts on it.
* `Partition.sweep` — all visits of a cube that loops over a number of iterations.
* `Partition.tally`, `Partition.places` — what the visits leave behind for each item.
-/

namespace PrefixScan.Partition

variable (p : Partition)

/-- The item number that `unit` computes for `iteration`. -/
def slot (iteration unit : Index) : Index := iteration * p.localSize + unit

/-- Whether the item of `unit` in `iteration` falls in the range. -/
def covers (iteration unit : Index) : Bool := p.slot iteration unit < p.range

/-- The iteration count as the device computes it from a runtime range. -/
def runtimeIterations : Index := (p.range + p.localSize - 1) / p.localSize

/-- The visits of `localSize` units that loop over `iterations` iterations and act on the items in
range. -/
def sweep (iterations : Index) : List Visit :=
  (List.range iterations.toNat).flatMap fun t =>
    (List.range p.localSize.toNat).filterMap fun u =>
      let iteration := BitVec.ofNat 32 t
      let unit := BitVec.ofNat 32 u
      if p.covers iteration unit then some ⟨p.slot iteration unit, iteration, unit⟩ else none

/-- How many of the visits go to each item of the range. -/
def tally (visits : List Visit) : List Nat :=
  (visits.foldl (fun counts visit => counts.modify visit.item.toNat (· + 1))
    (Array.replicate p.range.toNat 0)).toList

/-- Iteration and unit of the last visit to each item of the range, zeros where there is none. -/
def places (visits : List Visit) : List (Index × Index) :=
  (visits.foldl
    (fun places visit => places.setIfInBounds visit.item.toNat (visit.iteration, visit.unit))
    (Array.replicate p.range.toNat (0, 0))).toList

end PrefixScan.Partition
