import PrefixScan.Cube.Run
import PrefixScan.Proofs.Bracketing
import PrefixScan.Proofs.Cube.Move
import Mathlib.Algebra.Group.Nat.Defs

/-!
# What an instruction does to memory

An `act` instruction makes at most one move per unit, and the moves of two units never see each
other, whatever the settings: distinct units have distinct items, and what a unit reads from other
cells than its own is nothing that the instruction writes.  So the planes of a cube may take it in
any order, and its effect is that of all its moves at once.

## Main results

* `Instr.read_act`, `Instr.read_act_of_ne` — the effect of an `act` instruction, cell by cell.
* `Instr.holds_run`, `holds_runCode` — no code adds or removes cells.
-/

namespace PrefixScan.Cube

open Bracketing

/-! ## The units of a cube -/

namespace Frame

variable (frame : Frame)

/-- Number of units of the cube. -/
abbrev cubeDim : Nat := frame.settings.cubeDim.toNat

/-- Number of units of a plane. -/
abbrev planeDim : Nat := frame.settings.planeDim.toNat

/-- Number of elements of a block. -/
abbrev granularity : Nat := frame.settings.granularity.toNat

theorem planeDim_pos : 0 < frame.planeDim := by
  have := frame.settings.two_le_planeDim
  show 0 < frame.settings.planeDim.toNat
  omega

theorem cubeDim_lt : frame.cubeDim < 2 ^ 32 := frame.settings.cubeDim.isLt

theorem numPlanes_mul : frame.numPlanes * frame.planeDim = frame.cubeDim :=
  Nat.div_mul_cancel frame.settings.planeDim_dvd_cubeDim

theorem units_eq_map (plane : Nat) :
    frame.units plane = (List.range frame.planeDim).map (plane * frame.planeDim + ·) :=
  List.range'_eq_map_range

/-- The planes of a cube hold its units, one plane after the other. -/
theorem flatMap_units : (List.range frame.numPlanes).flatMap frame.units =
    List.range frame.cubeDim := by
  have hunits : frame.units = fun plane =>
      (List.range frame.planeDim).map (plane * frame.planeDim + ·) := funext frame.units_eq_map
  rw [hunits, flatMap_range_block, numPlanes_mul]

/-- The item of a unit in an iteration, as the device computes it. -/
def itemOf (iteration : Index) (unit : Nat) : Index :=
  (frame.partition 0).slot iteration (BitVec.ofNat 32 unit)

/-- The units of the cube that an instruction concerns. -/
def lanes (iteration bound : Index) : List Nat :=
  (List.range frame.cubeDim).filter fun unit => frame.itemOf iteration unit < bound

theorem flatMap_active (iteration bound : Index) :
    ((List.range frame.numPlanes).flatMap fun plane => frame.active plane iteration bound) =
      frame.lanes iteration bound := by
  rw [lanes, ← flatMap_units, List.filter_flatMap]
  rfl

theorem mem_lanes {iteration bound : Index} {unit : Nat} :
    unit ∈ frame.lanes iteration bound ↔
      unit < frame.cubeDim ∧ frame.itemOf iteration unit < bound := by
  simp [lanes]

/-- Distinct units have distinct items. -/
theorem itemOf_injective {iteration : Index} {unit other : Nat} (hunit : unit < frame.cubeDim)
    (hother : other < frame.cubeDim)
    (h : frame.itemOf iteration unit = frame.itemOf iteration other) : unit = other := by
  have hlt := frame.cubeDim_lt
  have hword := congrArg BitVec.toNat ((BitVec.add_right_inj _).1 h)
  rw [BitVec.toNat_ofNat, BitVec.toNat_ofNat, Nat.mod_eq_of_lt (by omega),
    Nat.mod_eq_of_lt (by omega)] at hword
  exact hword

end Frame

/-! ## Independence -/

/-- The moves of two units in one `act` instruction do not see each other. -/
theorem Action.moves_apart {frame : Frame} {iteration : Index} {unit other : Nat}
    (hunit : unit < frame.cubeDim) (hother : other < frame.cubeDim) (hne : unit ≠ other)
    (action : Action) {a b : Move}
    (ha : a ∈ action.moves frame iteration (frame.itemOf iteration unit) unit)
    (hb : b ∈ action.moves frame iteration (frame.itemOf iteration other) other) :
    Move.Apart a b := by
  have hitem : frame.itemOf iteration unit ≠ frame.itemOf iteration other :=
    fun h => hne (frame.itemOf_injective hunit hother h)
  have hword : (frame.itemOf iteration unit).toNat ≠ (frame.itemOf iteration other).toNat :=
    fun h => hitem (BitVec.eq_of_toNat_eq h)
  cases action with
  | pad | keep level | «recall» level | prependCarry =>
      simp_all [moves, Move.Apart, Move.reads, Operand.reads]
  | load region =>
      cases region <;> simp_all [moves, Move.Apart, Move.reads, Operand.reads, Frame.cell]
  | prepend level =>
      simp only [moves] at ha hb
      split at ha <;> split at hb <;> simp_all [Move.Apart, Move.reads, Operand.reads]
  | store region =>
      cases region with
      | shared level => simp_all [moves, Move.Apart, Move.reads, Operand.reads, Frame.cell]
      | source =>
          simp only [moves, List.mem_singleton] at ha hb
          subst ha hb
          constructor
          · intro h
            simp only [Frame.cell, Cell.source.injEq] at h
            exact hitem ((BitVec.add_right_inj _).1 (BitVec.eq_of_toNat_eq h))
          · simp [Move.reads, Operand.reads, Frame.cell]
  | post level =>
      simp only [moves] at ha hb
      split at ha <;> split at hb
      case isTrue.isTrue hlast hlast' =>
        simp only [List.mem_singleton] at ha hb
        subst ha hb
        constructor
        · intro h
          -- the last items of two chunks differ only if the chunks do
          simp only [Cell.shared.injEq, true_and, BitVec.toNat_udiv] at h
          have hrest := congrArg BitVec.toNat (hlast.trans hlast'.symm)
          simp only [BitVec.toNat_umod] at hrest
          have hunit := Nat.div_add_mod (frame.itemOf iteration unit).toNat frame.planeDim
          have hother := Nat.div_add_mod (frame.itemOf iteration other).toNat frame.planeDim
          rw [h, hrest, hother] at hunit
          exact hword hunit.symm
        · simp [Move.reads, Operand.reads]
      all_goals simp_all

/-! ## Instructions as lists of moves -/

section Run

variable {α : Type} [Inhabited α] {op : Operator α} {frame : Frame} {m : Memory α}

theorem applyAll_flatMap {β : Type} (moves : β → List Move) (l : List β) (m : Memory α) :
    l.foldl (fun m b => Move.applyAll op m (moves b)) m =
      Move.applyAll op m (l.flatMap moves) := by
  induction l generalizing m with
  | nil => rfl
  | cons b l ih => rw [List.foldl_cons, ih, List.flatMap_cons, Move.applyAll_append]

theorem Instr.run_act (iteration bound : Index) (action : Action) :
    (Instr.act iteration bound action).run op frame m =
      Move.applyAll op m ((frame.lanes iteration bound).flatMap fun unit =>
        action.moves frame iteration (frame.itemOf iteration unit) unit) := by
  rw [Instr.run, applyAll_flatMap, ← Frame.flatMap_active, List.flatMap_assoc]
  rfl

theorem Action.pairwise_moves (iteration bound : Index) (action : Action) :
    ((frame.lanes iteration bound).flatMap fun unit =>
      action.moves frame iteration (frame.itemOf iteration unit) unit).Pairwise Move.Apart := by
  rw [List.pairwise_flatMap]
  constructor
  · intro unit _
    cases action with
    | post | prepend => simp only [Action.moves]; split <;> simp
    | _ => simp [Action.moves]
  · have hnodup : (frame.lanes iteration bound).Pairwise (· ≠ ·) :=
      List.nodup_range.filter _
    refine hnodup.imp_of_mem ?_
    intro unit other hunit hother hne a ha b hb
    exact Action.moves_apart (frame.mem_lanes.1 hunit).1 (frame.mem_lanes.1 hother).1 hne action
      ha hb

/-- The cell that a unit writes holds what its move takes from the memory before. -/
theorem Instr.read_act {iteration bound : Index} {action : Action} {unit : Nat} {move : Move}
    (hunit : unit ∈ frame.lanes iteration bound)
    (hmove : move ∈ action.moves frame iteration (frame.itemOf iteration unit) unit)
    (hheld : m.Holds move.target) :
    ((Instr.act iteration bound action).run op frame m).read move.target =
      move.operand.eval op m := by
  rw [Instr.run_act]
  exact Move.read_applyAll_of_mem (Action.pairwise_moves iteration bound action)
    (List.mem_flatMap.2 ⟨unit, hunit, hmove⟩) hheld

/-- A cell that no unit writes keeps its content. -/
theorem Instr.read_act_of_ne {iteration bound : Index} {action : Action} {cell : Cell}
    (h : ∀ unit ∈ frame.lanes iteration bound,
      ∀ move ∈ action.moves frame iteration (frame.itemOf iteration unit) unit,
        move.target ≠ cell) :
    ((Instr.act iteration bound action).run op frame m).read cell = m.read cell := by
  rw [Instr.run_act]
  apply Move.read_applyAll_of_ne
  intro move hmove
  obtain ⟨unit, hunit, hmem⟩ := List.mem_flatMap.1 hmove
  exact h unit hunit move hmem

theorem Instr.holds_run (instr : Instr) (m : Memory α) (cell : Cell) :
    (instr.run op frame m).Holds cell ↔ m.Holds cell := by
  rw [Instr.run, applyAll_flatMap]
  exact Move.holds_applyAll m _ cell

theorem holds_runCode (code : List Instr) (m : Memory α) (cell : Cell) :
    (runCode op frame m code).Holds cell ↔ m.Holds cell := by
  induction code generalizing m with
  | nil => rfl
  | cons instr code ih => exact (ih _).trans (Instr.holds_run instr m cell)

theorem runCode_append (before after : List Instr) (m : Memory α) :
    runCode op frame m (before ++ after) = runCode op frame (runCode op frame m before) after :=
  List.foldl_append

/-- What each iteration of an unrolled loop keeps, all of them keep. -/
theorem runCode_unroll {iterations : Index} {body : Index → List Instr}
    (inv : Nat → Memory α → Prop) (hinit : inv 0 m)
    (hstep : ∀ t < iterations.toNat, ∀ m', inv t m' →
      inv (t + 1) (runCode op frame m' (body (BitVec.ofNat 32 t)))) :
    inv iterations.toNat (runCode op frame m (Program.unroll iterations body)) := by
  have hprefix : ∀ n ≤ iterations.toNat, inv n (runCode op frame m
      ((List.range n).flatMap fun t => body (BitVec.ofNat 32 t))) := by
    intro n hn
    induction n with
    | zero => exact hinit
    | succ n ih =>
        rw [List.range_succ, List.flatMap_append, List.flatMap_singleton, runCode_append]
        exact hstep n (by omega) _ (ih (by omega))
  exact hprefix _ (Nat.le_refl _)

end Run

end PrefixScan.Cube
