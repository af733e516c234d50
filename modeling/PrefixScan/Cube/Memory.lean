/-!
# Memory of a running cube

A cube sees two buffers on the device, the source it scans and the totals of a cascade level. Its
units share one scratch memory per recursion level. Each unit has for itself one kept value per
level and iteration, a working value and a carry.

Every access of a kernel names a `Cell`, so footprints can be compared cell by cell.

## Main definitions

* `Cube.Cell` — the address of one value.
* `Cube.Memory` — the contents.
* `Cube.Memory.read`, `Cube.Memory.write` — access to one cell. A cell outside of its allocation
  reads as the default value and ignores writes.
-/

namespace PrefixScan.Cube

/-- Address of one value that a unit can access. -/
inductive Cell
  /-- Element of the buffer that the kernel scans. -/
  | source (index : Nat)
  /-- Element of the buffer of block totals. -/
  | total (index : Nat)
  /-- Element of the scratch memory of a recursion level, shared by the cube. -/
  | shared (level index : Nat)
  /-- Value that a unit keeps from an iteration of a recursion level, private to the unit. -/
  | kept (level unit iteration : Nat)
  /-- Working value of a unit. -/
  | value (unit : Nat)
  /-- Carry of a unit. -/
  | carry (unit : Nat)
deriving DecidableEq, Repr

/-- Contents of all cells that a cube can access. -/
structure Memory (α : Type) where
  source : Array α
  totals : Array α
  /-- By level, then index. -/
  shared : Array (Array α)
  /-- By level, then unit, then iteration. -/
  kept : Array (Array (Array α))
  value : Array α
  carry : Array α

namespace Memory

variable {α : Type} [Inhabited α]

/-- The content of a cell. -/
def read (m : Memory α) : Cell → α
  | .source index => m.source.getD index default
  | .total index => m.totals.getD index default
  | .shared level index => (m.shared.getD level #[]).getD index default
  | .kept level unit iteration =>
    ((m.kept.getD level #[]).getD unit #[]).getD iteration default
  | .value unit => m.value.getD unit default
  | .carry unit => m.carry.getD unit default

/-- The memory with a new content in one cell. -/
def write (m : Memory α) (cell : Cell) (x : α) : Memory α :=
  match cell with
  | .source index => { m with source := m.source.setIfInBounds index x }
  | .total index => { m with totals := m.totals.setIfInBounds index x }
  | .shared level index =>
    { m with shared := m.shared.modify level (·.setIfInBounds index x) }
  | .kept level unit iteration =>
    { m with
      kept := m.kept.modify level (·.modify unit (·.setIfInBounds iteration x)) }
  | .value unit => { m with value := m.value.setIfInBounds unit x }
  | .carry unit => { m with carry := m.carry.setIfInBounds unit x }

end Memory

end PrefixScan.Cube
