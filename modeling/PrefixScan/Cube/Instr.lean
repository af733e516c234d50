import PrefixScan.Config.Settings
import PrefixScan.Partition.Device
import PrefixScan.Cube.Move

/-!
# Instructions of a cube

All units of a cube execute the same straight-line code. The units of a plane move in step, the
planes of a cube run independently of each other between barriers.

An instruction concerns one iteration of a partition: unit `u` acts on item
`iteration * cubeDim + u` if that item is below the bound of the instruction. What an instruction
does is given by the moves it makes for each plane, in the order of the units.

## Main definitions

* `Cube.Instr` — the instructions.
* `Cube.Frame` — where a cube runs: the settings, its position, and the start of its block.
* `Cube.Instr.moves` — the moves that a plane makes for an instruction.
-/

namespace PrefixScan.Cube

/-- The memory that holds the items of a scan: the block of the source, or the scratch memory of a
recursion level. -/
inductive Region
  | source
  | shared (level : Nat)
deriving DecidableEq, Repr

/-- What a unit does with its item. -/
inductive Action
  /-- Take the padding value. -/
  | pad
  /-- Take the item from a region. -/
  | load (region : Region)
  /-- Keep the working value for a later phase of the level. -/
  | keep (level : Nat)
  /-- If the item is the last of its chunk, store the working value as the chunk total. -/
  | post (level : Nat)
  /-- Take the value kept for the item. -/
  | recall (level : Nat)
  /-- If the item is not in the first chunk, combine the total of the chunks before it with the
  working value. -/
  | prepend (level : Nat)
  /-- Combine the carry with the working value. -/
  | prependCarry
  /-- Store the working value as the item of a region. -/
  | store (region : Region)
deriving DecidableEq, Repr

/-- One instruction, executed by all planes of a cube. -/
inductive Instr
  /-- Every unit whose item of the iteration is below the bound acts on it. -/
  | act (iteration bound : Index) (action : Action)
  /-- Inclusive scan of the working values of the units of a plane whose item is below the bound,
  from the first unit to the last. -/
  | scanPlane (iteration bound : Index)
  /-- Every unit takes the total of the cube's position as its carry. -/
  | fetchCarry
  /-- One unit takes an item of the block. -/
  | fetchItem (unit item : Index)
  /-- One unit stores its working value as the total of the cube's position. -/
  | publish (unit : Index)
  /-- No plane goes on before all have arrived. -/
  | barrier
deriving DecidableEq, Repr

/-- Where a cube runs. -/
structure Frame where
  settings : Settings
  /-- Position of the cube in its launch. -/
  position : Index
  /-- Start of the cube's block in the source. -/
  offset : Index

namespace Frame

variable (frame : Frame)

/-- The partition of `bound` items to the units of the cube. -/
def partition (bound : Index) : Partition := ⟨bound, frame.settings.cubeDim⟩

/-- Number of planes in the cube. -/
def numPlanes : Nat := frame.settings.cubeDim.toNat / frame.settings.planeDim.toNat

/-- The units of a plane, in order. -/
def units (plane : Nat) : List Nat :=
  List.range' (plane * frame.settings.planeDim.toNat) frame.settings.planeDim.toNat

/-- The units of a plane whose item of the iteration is below the bound. -/
def active (plane : Nat) (iteration bound : Index) : List Nat :=
  (frame.units plane).filter fun unit =>
    (frame.partition bound).covers iteration (BitVec.ofNat 32 unit)

/-- The address of an item of a region. Positions in the source wrap at 32 bits. -/
def cell (item : Index) : Region → Cell
  | .source => .source (frame.offset + item).toNat
  | .shared level => .shared level item.toNat

end Frame

/-- The moves of a unit for its item. -/
def Action.moves (frame : Frame) (iteration item : Index) (unit : Nat) : Action → List Move
  | .pad => [⟨.value unit, .identity⟩]
  | .load region => [⟨.value unit, .copy (frame.cell item region)⟩]
  | .keep level => [⟨.kept level unit iteration.toNat, .copy (.value unit)⟩]
  | .post level =>
    let planeDim := frame.settings.planeDim
    if item % planeDim = planeDim - 1 then
      [⟨.shared level (item / planeDim).toNat, .copy (.value unit)⟩]
    else []
  | .recall level => [⟨.value unit, .copy (.kept level unit iteration.toNat)⟩]
  | .prepend level =>
    let planeDim := frame.settings.planeDim
    if planeDim ≤ item then
      [⟨.value unit, .combine (.shared level (item / planeDim - 1).toNat) (.value unit)⟩]
    else []
  | .prependCarry => [⟨.value unit, .combine (.carry unit) (.value unit)⟩]
  | .store region => [⟨frame.cell item region, .copy (.value unit)⟩]

/-- The moves that a plane makes for an instruction, in order. -/
def Instr.moves (frame : Frame) (plane : Nat) : Instr → List Move
  | .act iteration bound action =>
    (frame.active plane iteration bound).flatMap fun unit =>
      let item := (frame.partition bound).slot iteration (BitVec.ofNat 32 unit)
      action.moves frame iteration item unit
  | .scanPlane iteration bound =>
    let active := frame.active plane iteration bound
    (active.zip active.tail).map fun (previous, unit) =>
      ⟨.value unit, .combine (.value previous) (.value unit)⟩
  | .fetchCarry =>
    (frame.units plane).map fun unit => ⟨.carry unit, .copy (.total frame.position.toNat)⟩
  | .fetchItem unit item =>
    if unit.toNat ∈ frame.units plane then
      [⟨.value unit.toNat, .copy (frame.cell item .source)⟩]
    else []
  | .publish unit =>
    if unit.toNat ∈ frame.units plane then
      [⟨.total frame.position.toNat, .copy (.value unit.toNat)⟩]
    else []
  | .barrier => []

end PrefixScan.Cube
