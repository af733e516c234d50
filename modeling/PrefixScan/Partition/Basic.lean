import PrefixScan.Word

/-!
# Partitions: which unit handles which item

A partition assigns `range` items to the `localSize` units of a cube. The units advance together:
in iteration `t` unit `u` handles item `t * localSize + u`. All iterations but the last are full;
the last one is partial when the range is no multiple of the unit count, and then its first units
are the active ones.

This module is the host's view, with checked arithmetic. `PrefixScan.Partition.Device` is the view
of a running unit, whose arithmetic wraps.

## Main definitions

* `Partition.item` — the item of a unit in an iteration.
* `Partition.owner` — the unit of an item.
* `Partition.visits` — the items in the order in which a lazy walk yields them.
-/

namespace PrefixScan

/-- Assignment of `range` items to `localSize` units. -/
structure Partition where
  range : Index
  localSize : Index
deriving DecidableEq, Repr

/-- An item, with the iteration and the unit that handle it. -/
structure Visit where
  item : Index
  iteration : Index
  unit : Index
deriving DecidableEq, Repr

namespace Partition

variable (p : Partition)

/-! ## Counts -/

/-- Iterations in which every unit has an item. -/
def fullIterations : Except Fault Index := Word.div p.range p.localSize

/-- Units with an item in the partial iteration, zero if there is none. -/
def tailLength : Except Fault Index := Word.rem p.range p.localSize

/-- Full iterations and the partial one, if any. -/
def numIterations : Except Fault Index := Word.ceilDiv p.range p.localSize

/-! ## Single items -/

/-- The item that `unit` handles in `iteration`, if any. -/
def item (iteration unit : Index) : Except Fault (Option Index) :=
  if p.localSize ≤ unit then .ok none
  else do
    let base ← Word.mul iteration p.localSize
    let item ← Word.add base unit
    return if item < p.range then some item else none

/-- The unit that handles `item`, whatever the range. A unit can therefore read back what it wrote
without waiting for the others. -/
def owner (item : Index) : Except Fault Index := Word.rem item p.localSize

/-! ## The walk over all items -/

/-- Walks `slots` slots of the iteration space in row-major order, starting at slot number `slot`,
until `wanted` items are found. A slot whose unit has no item is skipped, a slot whose item number
does not fit a word stops the walk with its fault. -/
def visitsFrom : (slots slot wanted : Nat) → Except Fault (List Visit)
  | 0, _, _ => .ok []
  | _ + 1, _, 0 => .ok []
  | slots + 1, slot, wanted + 1 =>
    let iteration := BitVec.ofNat 32 (slot / p.localSize.toNat)
    let unit := BitVec.ofNat 32 (slot % p.localSize.toNat)
    match p.item iteration unit with
    | .error fault => .error fault
    | .ok none => visitsFrom slots (slot + 1) (wanted + 1)
    | .ok (some item) =>
      match visitsFrom slots (slot + 1) wanted with
      | .error fault => .error fault
      | .ok rest => .ok (⟨item, iteration, unit⟩ :: rest)

/-- The first `wanted` visits: every unit of the first iteration, then of the second, and so on.
The walk is lazy, it looks no further than it needs to. -/
def visits (wanted : Nat) : Except Fault (List Visit) := do
  let iterations ← p.numIterations
  p.visitsFrom (iterations.toNat * p.localSize.toNat) 0 wanted

end Partition

end PrefixScan
