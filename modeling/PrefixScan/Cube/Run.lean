import PrefixScan.Cube.Program

/-!
# Running cubes

The planes of a cube take turns at every instruction, and the cubes of a launch run one after the
other. Private and shared memory of a cube are fresh: what they hold before the first write is not
defined, so it is a parameter.

## Main definitions

* `Cube.Program.run` — one cube.
* `Cube.Grid.run` — all cubes of a launch.
-/

namespace PrefixScan.Cube

variable {α : Type} [Inhabited α]

/-- Memory of a cube that starts on a source and totals, its own cells holding `fill`. -/
def Program.enter (program : Program) (cubeDim : Nat) (fill : α) (source totals : Array α) :
    Memory α where
  source := source
  totals := totals
  shared := (program.shared.map fun len => Array.replicate len.toNat fill).toArray
  kept := (program.kept.map fun iterations =>
    Array.replicate cubeDim (Array.replicate iterations.toNat fill)).toArray
  value := Array.replicate cubeDim fill
  carry := Array.replicate cubeDim fill

/-- The memory after all planes of a cube executed an instruction. -/
def Instr.run (op : Operator α) (frame : Frame) (m : Memory α) (instr : Instr) : Memory α :=
  (List.range frame.numPlanes).foldl
    (fun m plane => Move.applyAll op m (instr.moves frame plane)) m

/-- The memory after a cube executed a list of instructions. -/
def runCode (op : Operator α) (frame : Frame) (m : Memory α) (code : List Instr) : Memory α :=
  code.foldl (Instr.run op frame) m

/-- The two buffers that the cubes of a launch share. -/
structure Buffers (α : Type) where
  source : Array α
  totals : Array α
deriving DecidableEq

/-- The buffers after a cube ran a program. -/
def Program.run (op : Operator α) (frame : Frame) (fill : α) (program : Program)
    (buffers : Buffers α) : Buffers α :=
  let m := runCode op frame
    (program.enter frame.settings.cubeDim.toNat fill buffers.source buffers.totals) program.code
  ⟨m.source, m.totals⟩

/-- A launch: how many cubes run which program, and where the block of each starts. -/
structure Grid where
  settings : Settings
  program : Program
  cubeCount : Index
  offset : Index → Index

/-- The frame of the cube at a position. -/
def Grid.frame (grid : Grid) (position : Nat) : Frame :=
  let position := BitVec.ofNat 32 position
  ⟨grid.settings, position, grid.offset position⟩

/-- The buffers after all cubes of a launch ran. -/
def Grid.run (op : Operator α) (fill : α) (grid : Grid) (buffers : Buffers α) : Buffers α :=
  (List.range grid.cubeCount.toNat).foldl
    (fun buffers position => grid.program.run op (grid.frame position) fill buffers) buffers

end PrefixScan.Cube
