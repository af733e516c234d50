import PrefixScan.Proofs.Scan.Accesses

/-!
# Elements out of reach

A launch neither sees nor changes an element that none of its cubes accesses: it makes no difference whether
the element is replaced before the launch or after it.  Positions of elements are 32-bit words, so this is the
case for every element from `2 ^ 32` on, in every pass of every scan.

## Main definitions

* `Scan.Store.setData` — a store with another element in the data.

## Main results

* `Cube.Grid.run_setSource` — launches and elements that they do not access.
* `Scan.launch_setData` — scans and elements whose positions are no words.
-/

namespace PrefixScan

/-! ## Launches -/

namespace Cube

variable {α : Type} [Inhabited α] {op : Operator α} {fill : α} {m : Memory α} {cell : Cell}

/-- A write to a cell that moves neither read nor write can be made before them or after them. -/
theorem Move.applyAll_write {moves : List Move}
    (h : ∀ move ∈ moves, cell ∉ move.target :: move.reads) (x : α) :
    applyAll op (m.write cell x) moves = (applyAll op m moves).write cell x := by
  refine List.foldl_rel (r := fun after before : Memory α => after = before.write cell x) rfl ?_
  rintro move hmove _ before rfl
  obtain ⟨htarget, hreads⟩ := not_or.1 (mt List.mem_cons.2 (h move hmove))
  have heval : move.operand.eval op (before.write cell x) = move.operand.eval op before := by
    apply Operand.eval_congr
    intro read hread
    apply Memory.read_write_of_ne
    rintro rfl
    exact hreads hread
  rw [apply, heval, Memory.write_comm before htarget]
  rfl

theorem runCode_write {frame : Frame} {code : List Instr}
    (h : ∀ instr ∈ code, ∀ plane < frame.numPlanes, ∀ move ∈ instr.moves frame plane,
      cell ∉ move.target :: move.reads) (x : α) :
    runCode op frame (m.write cell x) code = (runCode op frame m code).write cell x := by
  refine List.foldl_rel (r := fun after before : Memory α => after = before.write cell x) rfl ?_
  rintro instr hinstr _ before rfl
  rw [Instr.run, Instr.run, applyAll_flatMap, applyAll_flatMap]
  apply Move.applyAll_write
  intro move hmove
  obtain ⟨plane, hplane, hmove⟩ := List.mem_flatMap.1 hmove
  exact h instr hinstr plane (List.mem_range.1 hplane) move hmove

/-- The buffers with another element in the source. -/
def Buffers.setSource (buffers : Buffers α) (i : Nat) (x : α) : Buffers α :=
  { buffers with source := buffers.source.setIfInBounds i x }

/-- An element that no cube accesses can be replaced before a launch or after it. -/
theorem Grid.run_setSource {grid : Grid} {buffers : Buffers α} {i : Nat}
    (h : ¬grid.Accesses (.source i)) (x : α) :
    grid.run op fill (buffers.setSource i x) = (grid.run op fill buffers).setSource i x := by
  refine List.foldl_rel (r := fun after before : Buffers α => after = before.setSource i x) rfl ?_
  rintro cube hcube _ before rfl
  let frame := grid.frame cube
  let m := grid.program.enter frame.cubeDim fill before.source before.totals
  have hcode : runCode op frame (m.write (.source i) x) grid.program.code =
      (runCode op frame m grid.program.code).write (.source i) x := by
    apply runCode_write
    intro instr hinstr plane hplane move hmove hcell
    exact h ⟨cube, List.mem_range.1 hcube, plane, hplane, instr, hinstr, move, hmove, hcell⟩
  exact congrArg (fun m : Memory α => Buffers.mk m.source m.totals) hcode

end Cube

/-! ## Scans -/

namespace Scan

open PrefixScan.Cube Cascade

variable {α : Type}

/-- The store with another element in the data. -/
def Store.setData (store : Store α) (i : Nat) (x : α) : Store α :=
  { store with data := store.data.setIfInBounds i x }

/-- The elements that a pass accesses have words for positions. -/
theorem lt_word_of_accesses {settings : Settings} {pass : Pass} {grid : Grid}
    (hgrid : Scan.grid settings pass = .ok grid) {i : Nat} (h : grid.Accesses (.source i)) :
    i < 2 ^ 32 := by
  obtain ⟨cube, _, item, _, hcell⟩ := exists_addresses hgrid h
  cases hcell
  exact BitVec.isLt _

variable [Inhabited α] {op : Operator α} {fill : α} {settings : Settings} {store : Store α}
  {i : Nat} (hi : 2 ^ 32 ≤ i) (x : α)
include hi

theorem runPass_setData (pass : Pass) :
    (runPass op fill settings pass (store.setData i x)).result =
      (runPass op fill settings pass store).result.map (·.setData i x) := by
  obtain ⟨grid, hgrid, _⟩ := grid_isOk settings pass
  have hout : ¬grid.Accesses (.source i) := fun h =>
    Nat.not_lt.2 hi (lt_word_of_accesses hgrid h)
  rw [runPass_result hgrid, runPass_result hgrid]
  obtain ⟨sweep, level, cubeCount⟩ := pass
  cases level with
  | zero =>
      have hrun := @Grid.run_setSource α _ op fill grid (store.buffers 0) i hout x
      exact congrArg (fun after => Except.ok (store.update 0 after)) hrun
  | succ level => rfl

theorem passes_setData (passes : List Pass) :
    passes.foldlM (fun store pass => (runPass op fill settings pass store).result)
        (store.setData i x) =
      (passes.foldlM (fun store pass => (runPass op fill settings pass store).result) store).map
        (·.setData i x) := by
  induction passes generalizing store with
  | nil => rfl
  | cons pass passes ih =>
      rw [List.foldlM_cons, List.foldlM_cons, runPass_setData hi]
      cases (runPass op fill settings pass store).result with
      | error fault => rfl
      | ok between => exact ih

/-- An element behind those that words can be the positions of can be replaced before a scan or after it. -/
theorem launch_setData {device : Device} {profiler : Profiler} {length : Size} {layout : Layout} :
    (launch op fill device profiler settings length layout (store.setData i x)).result =
      (launch op fill device profiler settings length layout store).result.map (·.setData i x) := by
  simp only [launch, Submission.result_bind, submitPasses_result, passes_setData hi]
  cases layout.passes <;> rfl

end Scan

end PrefixScan
