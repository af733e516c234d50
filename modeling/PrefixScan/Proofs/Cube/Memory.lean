import PrefixScan.Cube.Move

/-!
# Reading after writing

A memory is six arrays of different depth.  Proofs about programs see it through two views only:
which cells exist (`Memory.Holds`) and what a cell reads (`Memory.read`).  A write keeps the first
and changes the second at its own cell.

## Main results

* `Memory.read_write_self`, `Memory.read_write_of_ne` — a write is seen at its cell and nowhere else.
* `Memory.holds_write` — a write neither adds nor removes cells.
* `Memory.write_comm` — writes to different cells commute.
-/

namespace PrefixScan

/-! ## Arrays with a default -/

theorem getD_setIfInBounds {β : Type} (a : Array β) (i j : Nat) (x d : β) :
    (a.setIfInBounds i x).getD j d = if j = i ∧ i < a.size then x else a.getD j d := by
  simp only [Array.getD_eq_getD_getElem?, Array.getElem?_setIfInBounds]
  by_cases h : i = j
  · subst h
    by_cases hi : i < a.size <;> simp [hi]
  · have h' : ¬j = i := fun e => h e.symm
    simp [h, h']

theorem getD_setIfInBounds_of_ne {β : Type} (a : Array β) {i j : Nat} (h : j ≠ i) (x d : β) :
    (a.setIfInBounds i x).getD j d = a.getD j d := by
  rw [getD_setIfInBounds, if_neg fun e => h e.1]

/-- A change of an entry that fixes the default is seen with the default, too. -/
theorem getD_modify {β : Type} (a : Array β) (i j : Nat) {g : β → β} {d : β} (hg : g d = d) :
    (a.modify i g).getD j d = if j = i then g (a.getD i d) else a.getD j d := by
  simp only [Array.getD_eq_getD_getElem?, Array.getElem?_modify]
  by_cases h : i = j
  · subst h
    cases hi : a[i]? <;> simp [hg]
  · have h' : ¬j = i := fun e => h e.symm
    simp [h, h']

/-- Changes of different entries commute, and so do changes of one entry that commute on it. -/
theorem modify_comm {β : Type} (a : Array β) {i j : Nat} {f g : β → β}
    (h : i = j → ∀ x, g (f x) = f (g x)) :
    (a.modify i f).modify j g = (a.modify j g).modify i f := by
  apply Array.ext_getElem?
  intro k
  simp only [Array.getElem?_modify]
  by_cases hi : i = k <;> by_cases hj : j = k
  · have hsame := h (hi.trans hj.symm)
    cases a[k]? <;> simp [hi, hj, hsame]
  all_goals simp [hi, hj]

namespace Cube.Memory

variable {α : Type}

/-- Whether a cell lies in its allocation. -/
def Holds (m : Memory α) : Cell → Prop
  | .source index => index < m.source.size
  | .total index => index < m.totals.size
  | .shared level index => index < (m.shared.getD level #[]).size
  | .kept level unit iteration =>
    iteration < ((m.kept.getD level #[]).getD unit #[]).size
  | .value unit => unit < m.value.size
  | .carry unit => unit < m.carry.size

theorem holds_write [Inhabited α] (m : Memory α) (cell : Cell) (x : α) (other : Cell) :
    (m.write cell x).Holds other ↔ m.Holds other := by
  cases cell with
  | source | total | value | carry => cases other <;> simp [Holds, write]
  | shared level index =>
      cases other with
      | shared level' index' =>
          simp only [Holds, write]
          rw [getD_modify _ _ _ (by simp)]
          split <;> simp_all
      | _ => simp [Holds, write]
  | kept level unit iteration =>
      cases other with
      | kept level' unit' iteration' =>
          simp only [Holds, write]
          rw [getD_modify _ _ _ (by simp)]
          split
          · subst level'
            rw [getD_modify _ _ _ (by simp)]
            split <;> simp_all
          · rfl
      | _ => simp [Holds, write]

variable [Inhabited α]

theorem read_write_self {m : Memory α} {cell : Cell} (h : m.Holds cell) (x : α) :
    (m.write cell x).read cell = x := by
  cases cell with
  | source index => simp_all [Holds, write, read]
  | total index => simp_all [Holds, write, read]
  | value unit => simp_all [Holds, write, read]
  | carry unit => simp_all [Holds, write, read]
  | shared level index =>
      simp only [Holds] at h
      simp only [write, read]
      rw [getD_modify _ _ _ (by simp), if_pos rfl, getD_setIfInBounds, if_pos ⟨rfl, h⟩]
  | kept level unit iteration =>
      simp only [Holds] at h
      simp only [write, read]
      rw [getD_modify _ _ _ (by simp), if_pos rfl, getD_modify _ _ _ (by simp), if_pos rfl,
        getD_setIfInBounds, if_pos ⟨rfl, h⟩]

theorem read_write_of_ne {m : Memory α} {cell other : Cell} (h : other ≠ cell) (x : α) :
    (m.write cell x).read other = m.read other := by
  cases cell with
  | source index =>
      cases other with
      | source index' => exact getD_setIfInBounds_of_ne _ (fun e => h (by rw [e])) x default
      | _ => rfl
  | total index =>
      cases other with
      | total index' => exact getD_setIfInBounds_of_ne _ (fun e => h (by rw [e])) x default
      | _ => rfl
  | value unit =>
      cases other with
      | value unit' => exact getD_setIfInBounds_of_ne _ (fun e => h (by rw [e])) x default
      | _ => rfl
  | carry unit =>
      cases other with
      | carry unit' => exact getD_setIfInBounds_of_ne _ (fun e => h (by rw [e])) x default
      | _ => rfl
  | shared level index =>
      cases other with
      | shared level' index' =>
          simp only [write, read]
          rw [getD_modify _ _ _ (by simp)]
          split
          · subst level'
            exact getD_setIfInBounds_of_ne _ (fun e => h (by rw [e])) x default
          · rfl
      | _ => rfl
  | kept level unit iteration =>
      cases other with
      | kept level' unit' iteration' =>
          simp only [write, read]
          rw [getD_modify _ _ _ (by simp)]
          split
          · subst level'
            rw [getD_modify _ _ _ (by simp)]
            split
            · subst unit'
              exact getD_setIfInBounds_of_ne _ (fun e => h (by rw [e])) x default
            · rfl
          · rfl
      | _ => rfl

omit [Inhabited α] in
/-- Writes to different cells can be made in either order. -/
theorem write_comm (m : Memory α) {cell other : Cell} (h : cell ≠ other) (x y : α) :
    (m.write cell x).write other y = (m.write other y).write cell x := by
  cases cell with
  | source i =>
      cases other with
      | source j => simp only [write, Array.setIfInBounds_comm x y fun e : i = j => h (by rw [e])]
      | _ => rfl
  | total i =>
      cases other with
      | total j => simp only [write, Array.setIfInBounds_comm x y fun e : i = j => h (by rw [e])]
      | _ => rfl
  | value i =>
      cases other with
      | value j => simp only [write, Array.setIfInBounds_comm x y fun e : i = j => h (by rw [e])]
      | _ => rfl
  | carry i =>
      cases other with
      | carry j => simp only [write, Array.setIfInBounds_comm x y fun e : i = j => h (by rw [e])]
      | _ => rfl
  | shared level i =>
      cases other with
      | shared level' j =>
          have hrows := modify_comm m.shared (i := level) (j := level')
            (f := (·.setIfInBounds i x)) (g := (·.setIfInBounds j y)) <| by
              rintro rfl row
              exact Array.setIfInBounds_comm x y fun e => h (by rw [e])
          simp only [write, hrows]
      | _ => rfl
  | kept level unit i =>
      cases other with
      | kept level' unit' j =>
          have hrows := modify_comm m.kept (i := level) (j := level')
            (f := (·.modify unit (·.setIfInBounds i x)))
            (g := (·.modify unit' (·.setIfInBounds j y))) <| by
              rintro rfl rows
              apply modify_comm
              rintro rfl row
              exact Array.setIfInBounds_comm x y fun e => h (by rw [e])
          simp only [write, hrows]
      | _ => rfl

end Cube.Memory

end PrefixScan
