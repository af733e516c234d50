import PrefixScan.Proofs.Cube.Planes

/-!
# Cubes out of step

Nothing orders the cubes of a launch.  This module lets all planes of all cubes go on independently, move
by move, each cube with its own barriers.  The cubes share the two buffers of the launch and nothing else,
so cubes that touch different elements of them do not see each other, and every schedule ends with the
buffers that the cubes leave behind one after the other, in whichever order.

## Main definitions

* `LaunchMemory` — the shared buffers, and what each cube has for itself.
* `cubes` — the planes of the cubes of a launch as threads.
* `Grid.Separate` — different cubes touch different elements of the buffers.
* `Grid.ScheduleFree` — the outcome depends neither on the order of the cubes nor on the schedule.

## Main results

* `LaunchMemory.apply_comm` — moves of different cubes that see nothing of each other commute.
* `Grid.reaches_inOrder` — cubes can run one after the other, in any order.
* `Grid.Separate.scheduleFree` — a launch of separate cubes does not depend on the schedule.
-/

namespace PrefixScan.Cube

open Schedule (Machine Round State)
open Function (update)

/-! ## Memory of a launch -/

/-- What a cube has for itself. -/
structure Own (α : Type) where
  shared : Array (Array α)
  kept : Array (Array (Array α))
  value : Array α
  carry : Array α

section Memory

variable {α : Type}

/-- The part of the memory that a cube has for itself. -/
def Memory.own (m : Memory α) : Own α := ⟨m.shared, m.kept, m.value, m.carry⟩

/-- The part of the memory that a cube shares with others. -/
def Memory.buffers (m : Memory α) : Buffers α := ⟨m.source, m.totals⟩

/-- What a cube sees. -/
def Own.join (own : Own α) (buffers : Buffers α) : Memory α :=
  ⟨buffers.source, buffers.totals, own.shared, own.kept, own.value, own.carry⟩

/-- Whether a cell is shared by cubes. -/
def Cell.Common : Cell → Prop
  | .source _ | .total _ => True
  | _ => False

/-- Memory of a launch of `n` cubes. -/
@[ext]
structure LaunchMemory (α : Type) (n : Nat) where
  buffers : Buffers α
  own : Fin n → Own α

namespace LaunchMemory

variable {n : Nat} (g : LaunchMemory α n) (cube : Fin n)

/-- What a cube sees of the memory of its launch. -/
def view : Memory α := (g.own cube).join g.buffers

/-- The memory of the launch after a cube changed what it sees. -/
def onCube (f : Memory α → Memory α) : LaunchMemory α n :=
  ⟨(f (g.view cube)).buffers, update g.own cube (f (g.view cube)).own⟩

theorem view_onCube (f : Memory α → Memory α) : (g.onCube cube f).view cube = f (g.view cube) := by
  have hown : (g.onCube cube f).own cube = (f (g.view cube)).own := Function.update_self ..
  rw [view, hown]
  rfl

theorem onCube_onCube (f f' : Memory α → Memory α) :
    (g.onCube cube f).onCube cube f' = g.onCube cube fun m => f' (f m) := by
  rw [onCube, view_onCube]
  simp only [onCube, Function.update_idem]

theorem onCube_id : (g.onCube cube fun m => m) = g := by
  rw [onCube]
  exact congrArg (LaunchMemory.mk g.buffers) (Function.update_eq_self cube g.own)

theorem foldl_onCube {β : Type} (f : Memory α → β → Memory α) (l : List β) :
    l.foldl (fun g x => g.onCube cube (f · x)) g = g.onCube cube (l.foldl f) := by
  induction l generalizing g with
  | nil => exact (g.onCube_id cube).symm
  | cons x l ih => rw [List.foldl_cons, ih, onCube_onCube]; rfl

end LaunchMemory

/-! ## Moves of different cubes -/

/-- What a write changes of the own memory does not depend on the buffers. -/
theorem Own.write_join (own : Own α) (buffers buffers' : Buffers α) (cell : Cell) (x : α) :
    ((own.join buffers).write cell x).own = ((own.join buffers').write cell x).own := by
  cases cell <;> rfl

namespace LaunchMemory

variable {n : Nat} {g : LaunchMemory α n} {cube other : Fin n}

theorem view_onCube_of_ne (hne : cube ≠ other) (f : Memory α → Memory α) :
    (g.onCube cube f).view other = (g.own other).join (f (g.view cube)).buffers := by
  have hown : (g.onCube cube f).own other = g.own other := Function.update_of_ne hne.symm ..
  rw [view, hown]
  rfl

variable [Inhabited α]

/-- A cube reads the same after another wrote, unless it reads the shared cell that was written. -/
theorem read_view_write (hne : cube ≠ other) {cell seen : Cell} (h : cell.Common → seen ≠ cell)
    (x : α) :
    ((g.onCube cube (·.write cell x)).view other).read seen = (g.view other).read seen := by
  rw [view_onCube_of_ne hne]
  cases cell with
  | source i =>
      cases seen with
      | source j => exact Memory.read_write_of_ne (m := g.view other) (h trivial) x
      | _ => rfl
  | total i =>
      cases seen with
      | total j => exact Memory.read_write_of_ne (m := g.view other) (h trivial) x
      | _ => rfl
  | _ => rfl

omit [Inhabited α] in
/-- Writes of different cubes can be made in either order, unless they are of the same shared cell. -/
theorem write_comm (hne : cube ≠ other) {cell cell' : Cell} (h : cell.Common → cell ≠ cell')
    (x y : α) :
    (g.onCube cube (·.write cell x)).onCube other (·.write cell' y) =
      (g.onCube other (·.write cell' y)).onCube cube (·.write cell x) := by
  ext1
  · show (((g.onCube cube (·.write cell x)).view other).write cell' y).buffers =
      (((g.onCube other (·.write cell' y)).view cube).write cell x).buffers
    rw [view_onCube_of_ne hne, view_onCube_of_ne hne.symm]
    cases cell with
    | source i =>
        cases cell' with
        | source j =>
            have hindex : i ≠ j := fun hsame => h trivial (by rw [hsame])
            exact congrArg (Buffers.mk · _) (Array.setIfInBounds_comm x y hindex)
        | _ => rfl
    | total i =>
        cases cell' with
        | total j =>
            have hindex : i ≠ j := fun hsame => h trivial (by rw [hsame])
            exact congrArg (Buffers.mk _ ·) (Array.setIfInBounds_comm x y hindex)
        | _ => rfl
    | _ => rfl
  · -- neither cube has anything of what the other has for itself
    have hown : ∀ {cube other : Fin n} (hne : cube ≠ other) (cell cell' : Cell) (x y : α),
        (((g.onCube cube (·.write cell x)).view other).write cell' y).own =
          ((g.view other).write cell' y).own := by
      intro cube other hne cell cell' x y
      rw [view_onCube_of_ne hne]
      exact Own.write_join ..
    show update (update g.own cube _) other (((g.onCube cube (·.write cell x)).view other).write
        cell' y).own =
      update (update g.own other _) cube (((g.onCube other (·.write cell' y)).view cube).write
        cell x).own
    rw [hown hne, hown hne.symm]
    exact Function.update_comm hne ..

theorem onCube_apply (op : Operator α) (g : LaunchMemory α n) (cube : Fin n) (move : Move) :
    g.onCube cube (Move.apply op · move) =
      g.onCube cube (·.write move.target (move.operand.eval op (g.view cube))) := rfl

theorem eval_view_write {op : Operator α} (hne : cube ≠ other) {a b : Move}
    (h : a.target.Common → Move.Apart a b) (x : α) :
    b.operand.eval op ((g.onCube cube (·.write a.target x)).view other) =
      b.operand.eval op (g.view other) := by
  apply Operand.eval_congr
  intro cell hcell
  apply read_view_write hne
  rintro hcommon rfl
  exact (h hcommon).2 hcell

/-- Moves of different cubes can be made in either order, if they see nothing of each other in the
buffers. -/
theorem apply_comm (op : Operator α) (hne : cube ≠ other) {a b : Move}
    (hab : a.target.Common → Move.Apart a b) (hba : b.target.Common → Move.Apart b a) :
    (g.onCube cube (Move.apply op · a)).onCube other (Move.apply op · b) =
      (g.onCube other (Move.apply op · b)).onCube cube (Move.apply op · a) :=
  let x := a.operand.eval op (g.view cube)
  let y := b.operand.eval op (g.view other)
  calc (g.onCube cube (Move.apply op · a)).onCube other (Move.apply op · b)
      = (g.onCube cube (·.write a.target x)).onCube other (·.write b.target y) := by
        rw [onCube_apply op g, onCube_apply, eval_view_write hne hab]
    _ = (g.onCube other (·.write b.target y)).onCube cube (·.write a.target x) :=
        write_comm hne (fun h => (hab h).1) x y
    _ = (g.onCube other (Move.apply op · b)).onCube cube (Move.apply op · a) := by
        rw [onCube_apply op g, onCube_apply, eval_view_write hne.symm hba]

end LaunchMemory

end Memory

/-! ## Cubes as teams of threads -/

section Launch

variable {α : Type} [Inhabited α]

/-- Number of planes of each cube of a launch. -/
abbrev Grid.numPlanes (grid : Grid) : Nat :=
  grid.settings.cubeDim.toNat / grid.settings.planeDim.toNat

/-- Number of cubes of a launch. -/
abbrev Grid.numCubes (grid : Grid) : Nat := grid.cubeCount.toNat

/-- The cubes of a launch, as teams of their planes. -/
def cubes (op : Operator α) (grid : Grid) :
    Machine Move (LaunchMemory α grid.numCubes) (Fin grid.numCubes × Fin grid.numPlanes)
      (Fin grid.numCubes) where
  effect i g move := g.onCube i.1 (Move.apply op · move)
  team i := i.1
  code _ := grid.program.code.map (Instr.round (fun i => grid.frame i.1) fun i => i.2)

/-- What a cube has for itself when it starts. -/
def Program.own (program : Program) (cubeDim : Nat) (fill : α) : Own α :=
  (program.enter cubeDim fill #[] #[]).own

/-- The memory of a launch when it starts. -/
def Grid.enter (grid : Grid) (fill : α) (buffers : Buffers α) : LaunchMemory α grid.numCubes :=
  ⟨buffers, fun _ => grid.program.own grid.settings.cubeDim.toNat fill⟩

/-- The buffers after the cubes of a launch ran one after the other, in some order. -/
def Grid.runInOrder (op : Operator α) (fill : α) (grid : Grid) (order : List (Fin grid.numCubes))
    (buffers : Buffers α) : Buffers α :=
  order.foldl (fun buffers (cube : Fin grid.numCubes) =>
    grid.program.run op (grid.frame cube) fill buffers) buffers

/-- The outcome of a launch depends neither on the order of its cubes, nor on how they and their planes are
scheduled, and no schedule is stuck. -/
def Grid.ScheduleFree (grid : Grid) : Prop :=
  ∀ {α : Type} [Inhabited α] (op : Operator α) (fill : α) (buffers : Buffers α),
    (∀ order : List (Fin grid.numCubes), order.Perm (List.finRange grid.numCubes) →
      grid.runInOrder op fill order buffers = grid.run op fill buffers) ∧
    ∀ state, (cubes op grid).Reaches ((cubes op grid).start (grid.enter fill buffers)) state →
      (∃ final, (cubes op grid).Reaches state final ∧ final.Done) ∧
        (state.Done → state.memory.buffers = grid.run op fill buffers)

variable {op : Operator α} {grid : Grid}

/-- The planes of a cube in a launch. -/
def Grid.members (grid : Grid) (cube : Fin grid.numCubes) :
    List (Fin grid.numCubes × Fin grid.numPlanes) :=
  (List.finRange grid.numPlanes).map fun plane => (cube, plane)

theorem Grid.nodup_members (cube : Fin grid.numCubes) : (grid.members cube).Nodup :=
  (List.nodup_finRange _).map fun _ _ h => (Prod.mk.inj h).2

theorem Grid.mem_members (cube : Fin grid.numCubes) (i : Fin grid.numCubes × Fin grid.numPlanes) :
    i ∈ grid.members cube ↔ i.1 = cube := by
  obtain ⟨other, plane⟩ := i
  simp [members, eq_comm]

/-- The planes of a cube in turns. -/
theorem Grid.inTurns_members (op : Operator α) (grid : Grid) (cube : Fin grid.numCubes)
    (g : LaunchMemory α grid.numCubes) :
    (cubes op grid).inTurns (grid.members cube) ((cubes op grid).code cube) g =
      g.onCube cube (runCode op (grid.frame cube) · grid.program.code) := by
  have hinstr : ∀ (g : LaunchMemory α grid.numCubes) (instr : Instr),
      (grid.members cube).foldl (fun g i => ((instr.round (fun i => grid.frame i.1)
        fun i => i.2).movesOf i).foldl ((cubes op grid).effect i) g) g =
        g.onCube cube (Instr.run op (grid.frame cube) · instr) := by
    intro g instr
    have hplane : ∀ (g : LaunchMemory α grid.numCubes) (plane : Fin grid.numPlanes),
        (instr.moves (grid.frame cube) plane).foldl (fun g move =>
          g.onCube cube (Move.apply op · move)) g =
          g.onCube cube ((instr.moves (grid.frame cube) plane).foldl (Move.apply op)) :=
      fun g plane => g.foldl_onCube cube (Move.apply op) _
    simp only [Instr.movesOf_round, members, List.foldl_map, cubes, hplane]
    rw [g.foldl_onCube cube fun m (plane : Fin grid.numPlanes) =>
      (instr.moves (grid.frame cube) plane).foldl (Move.apply op) m]
    exact congrArg (g.onCube cube) (funext fun m =>
      @Instr.run_finRange α _ op (grid.frame cube) instr m)
  show List.foldl _ g (grid.program.code.map _) = _
  rw [List.foldl_map]
  simp only [hinstr]
  exact g.foldl_onCube cube (Instr.run op (grid.frame cube)) grid.program.code

/-! ## Cubes one after the other -/

/-- The buffers that fresh cubes leave behind one after the other. -/
theorem Grid.buffers_inOrder (fill : α) {g : LaunchMemory α grid.numCubes}
    {order : List (Fin grid.numCubes)} (horder : order.Nodup)
    (hfresh : ∀ cube ∈ order, g.own cube = grid.program.own grid.settings.cubeDim.toNat fill) :
    (order.foldl (fun g cube =>
      g.onCube cube (runCode op (grid.frame cube) · grid.program.code)) g).buffers =
      grid.runInOrder op fill order g.buffers := by
  induction order generalizing g with
  | nil => rfl
  | cons cube order ih =>
      obtain ⟨hnew, horder⟩ := List.nodup_cons.1 horder
      have hview : g.view cube = grid.program.enter grid.settings.cubeDim.toNat fill
          g.buffers.source g.buffers.totals := by
        rw [LaunchMemory.view, hfresh cube List.mem_cons_self]
        rfl
      have hrun : (g.onCube cube (runCode op (grid.frame cube) · grid.program.code)).buffers =
          grid.program.run op (grid.frame cube) fill g.buffers := by
        show (runCode op (grid.frame cube) (g.view cube) grid.program.code).buffers = _
        rw [hview]
        rfl
      rw [List.foldl_cons, Grid.runInOrder, List.foldl_cons, ← hrun]
      apply ih horder
      intro other hother
      have hne : other ≠ cube := fun hsame => hnew (hsame ▸ hother)
      exact (Function.update_of_ne hne ..).trans (hfresh other (List.mem_cons_of_mem cube hother))

/-- One of the schedules is that of the cubes one after the other, in whichever order. -/
theorem Grid.reaches_inOrder (op : Operator α) (grid : Grid) (fill : α) (buffers : Buffers α)
    {order : List (Fin grid.numCubes)} (horder : order.Perm (List.finRange grid.numCubes)) :
    ∃ final, (cubes op grid).Reaches ((cubes op grid).start (grid.enter fill buffers)) final ∧
      final.Done ∧ final.memory.buffers = grid.runInOrder op fill order buffers := by
  have hall : ∀ cube, cube ∈ order := fun cube => horder.mem_iff.2 (List.mem_finRange cube)
  have hnodup : order.Nodup := horder.nodup_iff.2 (List.nodup_finRange _)
  have hmembers : ∀ cube i, i ∈ grid.members cube ↔ (cubes op grid).team i = cube :=
    Grid.mem_members
  have hstart : ∀ i, (cubes op grid).team i ∈ order →
      ((cubes op grid).start (grid.enter fill buffers)).rest i = (cubes op grid).thread i :=
    fun _ _ => rfl
  obtain ⟨after, hreach, hdone, _⟩ :=
    Machine.reaches_teams Grid.nodup_members hmembers hnodup hstart
  refine ⟨_, hreach, fun i => hdone i (hall _), ?_⟩
  simp only [Grid.inTurns_members]
  exact Grid.buffers_inOrder fill hnodup fun _ _ => rfl

theorem Grid.runInOrder_finRange (op : Operator α) (fill : α) (grid : Grid) (buffers : Buffers α) :
    grid.runInOrder op fill (List.finRange grid.numCubes) buffers = grid.run op fill buffers := by
  have hcubes : (List.finRange grid.numCubes).map Fin.val = List.range grid.numCubes :=
    List.map_coe_finRange_eq_range
  rw [Grid.run, ← hcubes, List.foldl_map]
  rfl

/-! ## Separate cubes -/

/-- The barriers of each cube suffice for its planes, and no cube writes an element of the buffers that
another reads or writes. -/
structure Grid.Separate (grid : Grid) : Prop where
  footprints : ∀ cube : Fin grid.numCubes, Footprints (grid.frame cube) grid.program.code
  apart : ∀ cube other : Fin grid.numCubes, cube ≠ other →
    ∀ instr ∈ grid.program.code, ∀ instr' ∈ grid.program.code,
      ∀ unit < grid.settings.cubeDim.toNat, ∀ unit' < grid.settings.cubeDim.toNat,
        ∀ a ∈ instr.unitMoves (grid.frame cube) unit,
          ∀ b ∈ instr'.unitMoves (grid.frame other) unit', a.target.Common → Move.Apart a b

namespace Grid.Separate

variable (h : grid.Separate)
include h

/-- Moves of planes of different cubes. -/
theorem moves_apart {i j : Fin grid.numCubes × Fin grid.numPlanes} (hne : i.1 ≠ j.1) {a b : Move}
    (ha : a ∈ grid.program.code.flatMap (Instr.moves (grid.frame i.1) i.2))
    (hb : b ∈ grid.program.code.flatMap (Instr.moves (grid.frame j.1) j.2))
    (hcommon : a.target.Common) : Move.Apart a b := by
  obtain ⟨instr, hinstr, ha⟩ := List.mem_flatMap.1 ha
  obtain ⟨instr', hinstr', hb⟩ := List.mem_flatMap.1 hb
  have hplane : ∀ i : Fin grid.numCubes × Fin grid.numPlanes,
      (i.2 : Nat) < (grid.frame i.1).numPlanes := fun i => i.2.isLt
  obtain ⟨unit, hunit, ha⟩ := (Instr.mem_moves_iff (hplane i)).1 ha
  obtain ⟨unit', hunit', hb⟩ := (Instr.mem_moves_iff (hplane j)).1 hb
  exact h.apart i.1 j.1 hne instr hinstr instr' hinstr'
    unit (Frame.lt_cubeDim_of_mem_units (hplane i) hunit)
    unit' (Frame.lt_cubeDim_of_mem_units (hplane j) hunit') a ha b hb hcommon

theorem independent (op : Operator α) : (cubes op grid).Independent := by
  refine ⟨?_, ?_⟩
  · intro i j hne hteam phase hphase hfree a ha b hb g
    obtain ⟨cube, plane⟩ := i
    obtain ⟨other, plane'⟩ := j
    obtain rfl : cube = other := hteam
    obtain ⟨instrs, hinfix, hfree', hmoves⟩ := exists_phase_of_rounds hphase hfree
    rw [hmoves] at ha hb
    obtain ⟨instr, hinstr, ha⟩ := List.mem_flatMap.1 ha
    obtain ⟨instr', hinstr', hb⟩ := List.mem_flatMap.1 hb
    have hplanes : (plane : Nat) ≠ plane' := fun hsame => hne (by rw [Fin.ext hsame])
    show (g.onCube cube (Move.apply op · a)).onCube cube (Move.apply op · b) =
      (g.onCube cube (Move.apply op · b)).onCube cube (Move.apply op · a)
    rw [LaunchMemory.onCube_onCube, LaunchMemory.onCube_onCube]
    exact congrArg (g.onCube cube) <| funext <| Move.apply_comm
      ((h.footprints cube).apart hinfix hfree' hinstr hinstr' plane.isLt plane'.isLt hplanes ha hb)
      ((h.footprints cube).apart hinfix hfree' hinstr' hinstr plane'.isLt plane.isLt hplanes.symm
        hb ha)
  · intro i j hteam a ha b hb g
    have hmoves : ∀ i, ((cubes op grid).code ((cubes op grid).team i)).flatMap (Round.movesOf i) =
        grid.program.code.flatMap (Instr.moves (grid.frame i.1) i.2) := fun i =>
      flatMap_movesOf_round i grid.program.code
    rw [hmoves] at ha hb
    exact LaunchMemory.apply_comm op hteam (h.moves_apart hteam ha hb)
      (h.moves_apart (Ne.symm hteam) hb ha)

/-- The outcome of a launch of separate cubes does not depend on the schedule. -/
theorem scheduleFree : grid.ScheduleFree := by
  intro α _ op fill buffers
  obtain ⟨final, hfinal, hdone, hbuffers⟩ :=
    grid.reaches_inOrder op fill buffers (List.Perm.refl (List.finRange grid.numCubes))
  rw [Grid.runInOrder_finRange] at hbuffers
  -- all schedules meet in `final`
  have hmeet : ∀ state,
      (cubes op grid).Reaches ((cubes op grid).start (grid.enter fill buffers)) state →
        (cubes op grid).Reaches state final := fun _ hstate =>
    (h.independent op).reaches hstate hfinal hdone
  constructor
  · intro order horder
    obtain ⟨last, hlast, hended, horder⟩ := grid.reaches_inOrder op fill buffers horder
    rw [← horder, Machine.Reaches.eq_of_done (hmeet last hlast) hended, hbuffers]
  · intro state hstate
    refine ⟨⟨final, hmeet state hstate, hdone⟩, ?_⟩
    intro hended
    rw [Machine.Reaches.eq_of_done (hmeet state hstate) hended, hbuffers]

end Grid.Separate

end Launch

end PrefixScan.Cube
