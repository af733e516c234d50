import PrefixScan.Cascade.Layout

/-!
# Passes of a hierarchical scan

A hierarchical scan is a sequence of passes. The reduction sweep goes from the finest level to the
coarsest: it scans every block of a level's source in place and stores the block totals in the
level. The expansion sweep goes back from the coarsest level but one to the finest: it combines
block `b + 1` of the source with total `b` of the level. A level is expanded only after its own
totals were corrected by the level above.

## Main definitions

* `Cascade.Pass` — one kernel submission.
* `Cascade.Layout.passes` — the passes of a layout, in submission order.
-/

namespace PrefixScan.Cascade

/-- Direction of a pass. -/
inductive Sweep
  | reduce
  | expand
deriving DecidableEq, Repr

/-- The name of a sweep in labels. -/
def Sweep.label : Sweep → String
  | .reduce => "reduce"
  | .expand => "expand"

/-- One kernel submission. The source of level `k` is the buffer one step finer: the level before,
or the scanned buffer for level 0. -/
structure Pass where
  sweep : Sweep
  level : Nat
  /-- Number of cubes launched. -/
  cubeCount : Index
deriving DecidableEq, Repr

/-- The label of a pass in logs and profiles. -/
def Pass.label (pass : Pass) : String :=
  s!"hierarchical_inclusive_scan {pass.sweep.label} {pass.level}"

/-- The pass as a record. -/
def Pass.describe (pass : Pass) : String :=
  let name := match pass.sweep with
    | .reduce => "Reduce"
    | .expand => "Expand"
  Text.record name [("level", toString pass.level), ("cube_count", Text.word pass.cubeCount)]

namespace Layout

variable (layout : Layout)

/-- The reduction into level `k`: one cube per block of the source, counted in 32 bits. -/
def reducePass (k : Nat) : Except Fault Pass := do
  let length ← layout.sourceLength k
  let blocks ← Word.ceilDiv length layout.granularity
  return ⟨.reduce, k, blocks.setWidth 32⟩

/-- The expansion of level `k`: one cube per block of the source but the first, counted in
32 bits. -/
def expandPass (k : Nat) : Except Fault Pass := do
  let level ← layout.level k
  let blocks ← Word.sub level.numElems 1
  return ⟨.expand, k, blocks.setWidth 32⟩

/-- All passes: reductions from the finest level to the coarsest, then expansions from the coarsest
level but one to the finest. -/
def passes : Except Fault (List Pass) := do
  let up ← (List.range layout.numLevels).mapM layout.reducePass
  let down ← (List.range (layout.numLevels - 1)).reverse.mapM layout.expandPass
  return up ++ down

end Layout

end PrefixScan.Cascade
