import PrefixScan.Cube.Run
import PrefixScan.Profiler

/-!
# Scans of buffers

The hierarchical scan of a buffer goes through the passes of a cascade. Its preconditions are
checked first, and a scan that is refused submits nothing. Ranges too short for the hierarchical
scan are scanned by a single cube.

Buffers are arrays. `fill` stands for whatever fresh memory holds.

## Main definitions

* `checkLength` — the lengths that a hierarchical scan accepts.
* `Scan.runPass` — one pass over the buffers.
* `Scan.launch` — all passes of a layout, without checks.
* `Scan.accept` — the checks.
* `Scan.hierarchical` — the checked scan of a buffer.
* `Scan.block`, `Scan.direct` — scans by a single cube.
-/

namespace PrefixScan

/-- Checks that a buffer is made of whole blocks. Blocks of one element would never shrink the
cascade, so they hold at least two. -/
def checkLength (length : Size) (granularity : Index) : Except ScanError Unit :=
  if length = 0 ∨ granularity < 2 ∨ length % granularity.setWidth 64 ≠ 0 then
    .error (.invalidLength length granularity)
  else .ok ()

namespace Cascade

/-- The layout of the cascade for a buffer of `length` elements, which is checked first. -/
def Layout.ofConfig (length : Size) (config : Config) :
    Except ScanError (Submission Layout) := do
  checkLength length config.granularity
  return do
    let layout ← Layout.ofLength length (config.granularity.setWidth 64)
    Submission.emit (.notice (.allocating layout))
    return layout

/-- Sizes in bytes of the buffers of a layout. -/
def Layout.byteSizes (layout : Layout) (elementSize : Size) : Except Fault (List Size) :=
  layout.levels.mapM fun level => Word.mul level.length elementSize

/-- Fresh buffers for a layout. -/
def Layout.fresh {α : Type} (layout : Layout) (fill : α) : Array (Array α) :=
  (layout.levels.map fun level => Array.replicate level.length.toNat fill).toArray

end Cascade

namespace Scan

open PrefixScan.Cube (Buffers Grid Program Region)

variable {α : Type} [Inhabited α]

/-- The buffers of a hierarchical scan: the data and one buffer per level of the cascade. -/
structure Store (α : Type) where
  data : Array α
  levels : Array (Array α)
deriving DecidableEq

namespace Store

/-- The buffer reduced into a level: the data for level 0, the level before otherwise. -/
def source (store : Store α) : Nat → Array α
  | 0 => store.data
  | k + 1 => store.levels.getD k #[]

/-- The store with other contents in the source and the totals of a level. -/
def update (store : Store α) (level : Nat) (buffers : Buffers α) : Store α :=
  match level with
  | 0 => ⟨buffers.source, store.levels.setIfInBounds 0 buffers.totals⟩
  | k + 1 =>
    ⟨store.data,
      (store.levels.setIfInBounds k buffers.source).setIfInBounds (k + 1) buffers.totals⟩

end Store

/-! ## The hierarchical scan -/

variable (op : Operator α) (fill : α)

/-- The launch of a pass: reduction cube `b` works on block `b`, expansion cube `b` on block
`b + 1`. -/
def grid (settings : Settings) (pass : Cascade.Pass) : Except Fault Grid :=
  match pass.sweep with
  | .reduce => do
    let program ← Program.reduce settings
    return ⟨settings, program, pass.cubeCount, fun position => position * settings.granularity⟩
  | .expand =>
    .ok ⟨settings, Program.expand settings, pass.cubeCount,
      fun position => (position + 1) * settings.granularity⟩

/-- The kernel of a sweep. -/
def kernel : Cascade.Sweep → Kernel
  | .reduce => .reduce
  | .expand => .expand

/-- One pass over the buffers. -/
def runPass (settings : Settings) (pass : Cascade.Pass) (store : Store α) :
    Submission (Store α) := do
  let grid ← grid settings pass
  Submission.emit (.launch
    ⟨kernel pass.sweep, pass.cubeCount, settings.cubeDim, grid.program.shared⟩)
  let buffers := ⟨store.source pass.level, store.levels.getD pass.level #[]⟩
  return store.update pass.level (grid.run op fill buffers)

/-- Submits passes in order, each seeing what the passes before it wrote. -/
def submitPasses (device : Device) (profiler : Profiler) (settings : Settings) :
    List Cascade.Pass → Store α → Submission (Store α)
  | [], store => pure store
  | pass :: rest, store => do
    Submission.emit (.notice (.submitting pass))
    let store ← profiler.submit device pass.label (runPass op fill settings pass) store
    submitPasses device profiler settings rest store

/-- The passes of a layout over the first `length` elements of the data. Nothing is checked. -/
def launch (device : Device) (profiler : Profiler) (settings : Settings) (length : Size)
    (layout : Cascade.Layout) (store : Store α) : Submission (Store α) := do
  Submission.emit (.notice
    (.scanning length layout.numLevels settings.scratch.levels))
  let passes ← layout.passes
  submitPasses op fill device profiler settings passes store

/-- The checks of a hierarchical scan: the settings it runs with, or the first check that fails. The
device and the configuration come first, then the length, then the cascade. -/
def accept (device : Device) (config : Config) (length : Size) (layout : Cascade.Layout) :
    Except ScanError Settings := do
  let settings ← device.settings config
  checkLength length config.granularity
  layout.validate length config.granularity
  return settings

/-- Inclusive scan in place of the first `length` elements of the data, with the cascade of the
given layout. -/
def hierarchical (device : Device) (config : Config) (length : Size) (layout : Cascade.Layout)
    (store : Store α) : Except ScanError (Submission (Store α)) := do
  let settings ← accept device config length layout
  return launch op fill device ⟨config.profiling⟩ settings length layout store

/-- An accepted scan submits the passes of its layout. -/
theorem hierarchical_of_accept {device : Device} {config : Config} {length : Size}
    {layout : Cascade.Layout} {settings : Settings}
    (h : accept device config length layout = .ok settings) (store : Store α) :
    hierarchical op fill device config length layout store =
      .ok (launch op fill device ⟨config.profiling⟩ settings length layout store) := by
  simp only [hierarchical, h]
  rfl

/-- A scan that is not accepted is refused with the error of the check that failed. -/
theorem hierarchical_of_refuse {device : Device} {config : Config} {length : Size}
    {layout : Cascade.Layout} {error : ScanError}
    (h : accept device config length layout = .error error) (store : Store α) :
    hierarchical op fill device config length layout store = .error error := by
  simp only [hierarchical, h]
  rfl

/-! ## Scans by a single cube -/

/-- Runs one cube on a range of the data that starts at `offset`. -/
def single (kernel : Kernel) (settings : Settings) (program : Program) (offset : Index)
    (data : Array α) : Submission (Array α) := do
  Submission.emit (.launch ⟨kernel, 1, settings.cubeDim, program.shared⟩)
  let grid : Grid := ⟨settings, program, 1, fun _ => offset⟩
  return (grid.run op fill ⟨data, #[]⟩).source

/-- Scan of the first `length` elements of the data by one cube, for lengths that the hierarchical
scan does not accept. The range of the kernel is the length cut to 32 bits. -/
def block (settings : Settings) (length : Size) (data : Array α) : Submission (Array α) := do
  let range : Index := length.setWidth 32
  let iterations ← (Partition.mk range settings.cubeDim).numIterations
  Submission.emit (.notice (.blockScan length iterations))
  let program ← Program.cubeScan settings .source 0 range
  single op fill .block settings program 0 data

/-- How the units of a cube share a range. -/
inductive Scope
  /-- Each plane scans its chunks on its own. -/
  | plane
  /-- The cube scans the whole range. -/
  | cube
deriving DecidableEq, Repr

/-- Scan of `range` elements from `start` on by one cube. -/
def direct (settings : Settings) (scope : Scope) (start range : Index) (data : Array α) :
    Submission (Array α) := do
  let program ← match scope with
    | .plane => Program.planeScan settings .source range
    | .cube => Program.cubeScan settings .source 0 range
  single op fill .direct settings program start data

end Scan

end PrefixScan
