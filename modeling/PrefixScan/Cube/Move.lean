import PrefixScan.Operator
import PrefixScan.Cube.Memory

/-!
# Moves

A move is the smallest thing a unit does: it reads at most two cells, combines what it read, and
writes one cell. Moves hold no values, only addresses, so the moves of a kernel are known before it
runs and are the same for all data.

## Main definitions

* `Cube.Move` — a target cell and the operand written to it.
* `Cube.Move.reads` — the cells a move reads.
* `Cube.Move.apply` — the effect of a move on memory.
-/

namespace PrefixScan.Cube

/-- What a move writes. -/
inductive Operand
  /-- The padding value of the operator. -/
  | identity
  /-- The content of a cell. -/
  | copy (cell : Cell)
  /-- The combination of two cells, the earlier items first. -/
  | combine (earlier later : Cell)
deriving DecidableEq, Repr

/-- One access of one unit. -/
structure Move where
  target : Cell
  operand : Operand
deriving DecidableEq, Repr

/-- The cells whose contents an operand needs. -/
def Operand.reads : Operand → List Cell
  | .identity => []
  | .copy cell => [cell]
  | .combine earlier later => [earlier, later]

variable {α : Type} [Inhabited α]

/-- The value of an operand. -/
def Operand.eval (op : Operator α) (m : Memory α) : Operand → α
  | .identity => op.identity
  | .copy cell => m.read cell
  | .combine earlier later => op.combine (m.read earlier) (m.read later)

namespace Move

/-- The cells a move reads. -/
def reads (move : Move) : List Cell := move.operand.reads

/-- The memory after a move. -/
def apply (op : Operator α) (m : Memory α) (move : Move) : Memory α :=
  m.write move.target (move.operand.eval op m)

/-- The memory after a list of moves. -/
def applyAll (op : Operator α) (m : Memory α) (moves : List Move) : Memory α :=
  moves.foldl (apply op) m

end Move

end PrefixScan.Cube
