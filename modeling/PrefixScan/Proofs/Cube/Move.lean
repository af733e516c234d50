import PrefixScan.Proofs.Cube.Memory

/-!
# Moves that do not see each other

A list of moves in which no move reads or overwrites what an earlier one wrote has the effect of all
of its moves at once: each target reads the operand of its move, evaluated in the memory before the
list.

## Main results

* `Move.read_applyAll_of_mem` — the target of a move of such a list.
* `Move.read_applyAll_of_ne` — a cell that is no target.
* `Move.apply_comm` — two moves that do not see each other.
-/

namespace PrefixScan.Cube

variable {α : Type} [Inhabited α] {op : Operator α}

theorem Operand.eval_congr {m m' : Memory α} {operand : Operand}
    (h : ∀ cell ∈ operand.reads, m'.read cell = m.read cell) :
    operand.eval op m' = operand.eval op m := by
  cases operand with
  | identity => rfl
  | copy cell => exact h cell (by simp [reads])
  | combine earlier later =>
      have hEarlier := h earlier (by simp [reads])
      have hLater := h later (by simp [reads])
      simp only [eval, hEarlier, hLater]

namespace Move

theorem holds_applyAll (m : Memory α) (moves : List Move) (cell : Cell) :
    (applyAll op m moves).Holds cell ↔ m.Holds cell := by
  induction moves generalizing m with
  | nil => rfl
  | cons move moves ih => exact (ih _).trans (Memory.holds_write m _ _ cell)

theorem applyAll_append (m : Memory α) (before after : List Move) :
    applyAll op m (before ++ after) = applyAll op (applyAll op m before) after :=
  List.foldl_append

theorem applyAll_singleton (m : Memory α) (move : Move) :
    applyAll op m [move] = m.write move.target (move.operand.eval op m) := rfl

theorem read_applyAll_of_ne {m : Memory α} {moves : List Move} {cell : Cell}
    (h : ∀ move ∈ moves, move.target ≠ cell) : (applyAll op m moves).read cell = m.read cell := by
  induction moves generalizing m with
  | nil => rfl
  | cons move moves ih =>
      have hRest := ih (m := apply op m move) fun other hother => h other (by simp [hother])
      have hne : cell ≠ move.target := (h move (by simp)).symm
      exact hRest.trans (Memory.read_write_of_ne hne _)

/-- Move `later`, made after move `earlier`, neither sees it nor undoes it. -/
def Apart (earlier later : Move) : Prop :=
  earlier.target ≠ later.target ∧ earlier.target ∉ later.reads

theorem Apart.eval_apply {m : Memory α} {earlier later : Move} (h : Apart earlier later) :
    later.operand.eval op (apply op m earlier) = later.operand.eval op m := by
  apply Operand.eval_congr
  intro cell hcell
  apply Memory.read_write_of_ne
  rintro rfl
  exact h.2 hcell

theorem read_applyAll_of_mem {m : Memory α} {moves : List Move} {move : Move}
    (hapart : moves.Pairwise Apart) (hmem : move ∈ moves) (hheld : m.Holds move.target) :
    (applyAll op m moves).read move.target = move.operand.eval op m := by
  induction moves generalizing m with
  | nil => cases hmem
  | cons head rest ih =>
      obtain ⟨hhead, hrest⟩ := List.pairwise_cons.1 hapart
      rcases List.mem_cons.1 hmem with rfl | hmem
      · have hkept : (applyAll op (apply op m move) rest).read move.target =
            (apply op m move).read move.target :=
          read_applyAll_of_ne fun other hother => (hhead other hother).1.symm
        exact hkept.trans (Memory.read_write_self hheld _)
      · rw [← (hhead move hmem).eval_apply]
        exact ih hrest hmem ((Memory.holds_write m _ _ _).2 hheld)

/-- Moves that do not see each other, in whichever order, can be made in either. -/
theorem apply_comm {a b : Move} (hab : Apart a b) (hba : Apart b a) (m : Memory α) :
    apply op (apply op m a) b = apply op (apply op m b) a :=
  calc (apply op m a).write b.target (b.operand.eval op (apply op m a))
      = (m.write a.target (a.operand.eval op m)).write b.target (b.operand.eval op m) := by
        rw [hab.eval_apply, apply]
    _ = (m.write b.target (b.operand.eval op m)).write a.target (a.operand.eval op m) :=
        Memory.write_comm m hab.1 _ _
    _ = (apply op m b).write a.target (a.operand.eval op (apply op m b)) := by
        rw [hba.eval_apply, apply]

end Move

end PrefixScan.Cube
