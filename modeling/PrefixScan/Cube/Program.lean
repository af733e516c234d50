import PrefixScan.Cube.Instr

/-!
# Programs of the scan kernels

A kernel is expanded into straight-line code for known settings and a known range. The scan of a
range that fits a plane needs one plane instruction per iteration. The scan of a longer range has
three phases, separated by barriers:

1. each plane scans its chunks, keeps the scanned values and posts the chunk totals to the scratch
   memory of the level;
2. the totals are scanned recursively;
3. each item outside of the first chunk is combined with the total of the chunks before it.

Expansion is host arithmetic, so it can fault.

## Main definitions

* `Cube.Program` — the code and the memories it needs.
* `Cube.Program.planeScan`, `Cube.Program.cubeScan` — scans of a range of a region.
* `Cube.Program.reduce`, `Cube.Program.expand` — the kernels of the two sweeps.
-/

namespace PrefixScan.Cube

/-- Code of a kernel, with the private and shared memories that it needs. -/
structure Program where
  code : List Instr
  /-- Lengths of the shared memories, outermost recursion level first. -/
  shared : List Index
  /-- Number of values that a unit keeps, by recursion level. -/
  kept : List Index
deriving DecidableEq, Repr

namespace Program

/-- The code of all iterations, one after the other. -/
def unroll (iterations : Index) (body : Index → List Instr) : List Instr :=
  (List.range iterations.toNat).flatMap fun t => body (BitVec.ofNat 32 t)

/-- A program over instructions of the outermost level only. -/
def flat (code : List Instr) : Program := ⟨code, [], []⟩

variable (settings : Settings)

/-- Scan of each plane's chunk of `region[0..range]` on its own. The last chunk is padded to a
whole plane, and what the padding units computed is dropped. -/
def planeScan (region : Region) (range : Index) : Except Fault Program := do
  let padded ← Word.roundUp range settings.planeDim
  let iterations ← (Partition.mk padded settings.cubeDim).numIterations
  return flat <| unroll iterations fun t => [
    .act t padded .pad,
    .act t range (.load region),
    .scanPlane t padded,
    .act t range (.store region)]

/-- First phase of a scan by chunks: the chunks are scanned and their totals posted. -/
def chunkPhase (region : Region) (level : Nat) (range padded iterations : Index) : List Instr :=
  unroll iterations fun t => [
    .act t padded .pad,
    .act t range (.load region),
    .scanPlane t padded,
    .act t padded (.keep level),
    .act t padded (.post level)]

/-- Last phase of a scan by chunks: the totals are folded into the chunks after them. -/
def foldPhase (region : Region) (level : Nat) (range iterations : Index) : List Instr :=
  unroll iterations fun t => [
    .act t range (.recall level),
    .act t range (.prepend level),
    .act t range (.store region)]

/-- Scan of `region[0..range]` by a whole cube, at a recursion level. -/
def cubeScan (region : Region) (level : Nat) (range : Index) : Except Fault Program :=
  if h : range ≤ settings.planeDim then planeScan settings region range
  else
    match Word.roundUp range settings.planeDim with
    | .error fault => .error fault
    | .ok padded =>
      match hc : Word.ceilDiv range settings.planeDim with
      | .error fault => .error fault
      | .ok chunks =>
        match (Partition.mk padded settings.cubeDim).numIterations with
        | .error fault => .error fault
        | .ok iterations =>
          match (Partition.mk range settings.cubeDim).numIterations with
          | .error fault => .error fault
          | .ok writeIterations =>
            have : chunks.toNat < range.toNat := by
              have hlt := BitVec.lt_def.mp (BitVec.not_le.mp h)
              have htwo := settings.two_le_planeDim
              rw [Word.ceilDiv_eq_ok hc]
              exact Word.ceilQuot_lt (by omega) htwo
            match cubeScan (.shared level) (level + 1) chunks with
            | .error fault => .error fault
            | .ok inner => .ok {
                code := chunkPhase region level range padded iterations ++
                  .barrier :: inner.code ++
                  .barrier :: foldPhase region level range writeIterations
                shared := chunks :: inner.shared
                kept := iterations :: inner.kept }
termination_by range.toNat

/-- Scan of one block of the source in place. The unit that scanned the last item reads back its
own write and stores it as the block's total. -/
def reduce : Except Fault Program := do
  let last := settings.granularity - 1
  let owner ← (Partition.mk settings.granularity settings.cubeDim).owner last
  let scan ← cubeScan settings .source 0 settings.granularity
  return { scan with code := scan.code ++ [.fetchItem owner last, .publish owner] }

/-- Combination of every item of a block with the total of the blocks before it. The iteration
count is computed on the device. -/
def expand : Program :=
  let range := settings.granularity
  let iterations := (Partition.mk range settings.cubeDim).runtimeIterations
  flat <| .fetchCarry :: unroll iterations fun t => [
    .act t range (.load .source),
    .act t range .prependCarry,
    .act t range (.store .source)]

end Program

end PrefixScan.Cube
