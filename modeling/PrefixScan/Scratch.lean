import PrefixScan.Word
import PrefixScan.Text.Record

/-!
# Scratch layout of a cube scan

A cube scans a range that does not fit one plane by scanning chunks of one plane each and then,
recursively, the chunk totals. Every recursion level keeps its totals in shared memory. The layout
lists the lengths of these memories, outermost level first.

## Main definitions

* `Scratch.ofRange` — the layout for a range and a plane dimension.
* `Scratch.sizeBytes` — the shared memory it takes.
-/

namespace PrefixScan

/-- Lengths of the shared memories of a cube scan, outermost recursion level first. -/
structure Scratch where
  levels : List Index
deriving DecidableEq, Repr

namespace Scratch

/-- Chunk counts of the nested levels: each is the number of plane-sized chunks of the one before,
until a level fits a plane. Planes of fewer than two units shrink nothing, so they have no level. -/
def levelsOf (planeDim range : Index) : List Index :=
  if h : planeDim < range ∧ 1 < planeDim then
    let chunks := Word.ceilQuot range planeDim
    have : chunks.toNat < range.toNat := by
      have hlt := BitVec.lt_def.mp h.1
      have hone := BitVec.lt_def.mp h.2
      have : (1 : Index).toNat = 1 := rfl
      exact Word.ceilQuot_lt (by omega) (by omega)
    chunks :: levelsOf planeDim chunks
  else []
termination_by range.toNat

/-- The layout of a scan of `range` items by planes of `planeDim` units. -/
def ofRange (range planeDim : Index) : Scratch := ⟨levelsOf planeDim range⟩

/-- Number of shared memories, which is the recursion depth. -/
def depth (s : Scratch) : Nat := s.levels.length

/-- Sum of lengths, checked at every step. -/
def total : List Index → Size → Except Fault Size
  | [], sum => .ok sum
  | len :: rest, sum => do
    let sum ← Word.add sum (len.setWidth 64)
    total rest sum

/-- Shared memory taken by elements of `elementSize` bytes. -/
def sizeBytes (s : Scratch) (elementSize : Size) : Except Fault Size := do
  let cells ← total s.levels 0
  Word.mul cells elementSize

/-- The layout as a record. -/
def describe (s : Scratch) : String :=
  Text.record "ScratchLayout" [("levels", Text.list (s.levels.map Text.word))]

end Scratch

end PrefixScan
