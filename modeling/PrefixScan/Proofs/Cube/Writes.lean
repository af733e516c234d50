import PrefixScan.Proofs.Cube.Blocks
import PrefixScan.Proofs.Partition.Sweep

/-!
# How often kernels write

The cells that a cube writes are known from its code, with every repetition.  A scan writes the elements of
the items that a sweep visits, in the same order.  A reduction writes one total, once, since of its
instructions only the last publishes.  An expansion writes every element of its block
once, since the device sweeps over the items of the block.  It writes none if the count of its iterations
wraps.

## Main definitions

* `Instr.targets`, `Program.targets`, `Grid.targets` — the cells that an instruction, a cube and a launch
  write, each as often as it is written.

## Main results

* `ScanCode.elements` — the elements that a scan writes.
* `Program.reduce_totals` — the totals that a reduction writes.
* `Program.expand_elements` — the elements that an expansion writes.
* `Program.source_of_notMem` — the elements that are not written.
-/

namespace PrefixScan.Cube

/-! ## Targets -/

/-- The index of an element of the scanned buffer. -/
def Cell.source? : Cell → Option Nat
  | .source index => some index
  | _ => none

/-- The index of a block total. -/
def Cell.total? : Cell → Option Nat
  | .total index => some index
  | _ => none

/-- The cells that the planes of a cube write for an instruction, one after the other. -/
def Instr.targets (frame : Frame) (instr : Instr) : List Cell :=
  (List.range frame.numPlanes).flatMap fun plane => (instr.moves frame plane).map Move.target

/-- The cells that a cube writes, one after the other. -/
def Program.targets (frame : Frame) (program : Program) : List Cell :=
  program.code.flatMap (Instr.targets frame)

/-- The cells that the cubes of a launch write, one after the other. -/
def Grid.targets (grid : Grid) : List Cell :=
  (List.range grid.numCubes).flatMap fun cube => grid.program.targets (grid.frame cube)

/-- Of a row of lists that are empty but for one, that one is left. -/
theorem flatMap_range_single {β : Type} (l : List β) {k n : Nat} (hk : k < n) :
    ((List.range n).flatMap fun j => if j = k then l else []) = l := by
  induction n with
  | zero => exact absurd hk (Nat.not_lt_zero k)
  | succ n ih =>
      rw [List.range_succ, List.flatMap_append, List.flatMap_singleton]
      by_cases hlast : n = k
      · have hnone : ((List.range n).flatMap fun j => if j = k then l else []) = [] := by
          rw [List.flatMap_eq_nil_iff]
          intro j hj
          exact if_neg fun h => Nat.ne_of_lt (List.mem_range.1 hj) (h.trans hlast.symm)
        rw [hnone, if_pos hlast, List.nil_append]
      · rw [ih (by omega), if_neg hlast, List.append_nil]

section Instructions

variable {frame : Frame} {instr : Instr}

/-- If no unit writes such a cell, the instruction writes none. -/
theorem Instr.filterMap_targets_eq_nil {f : Cell → Option Nat}
    (h : ∀ unit, ∀ move ∈ instr.unitMoves frame unit, f move.target = none) :
    (instr.targets frame).filterMap f = [] := by
  rw [List.filterMap_eq_nil_iff]
  intro cell hcell
  obtain ⟨plane, hplane, hcell⟩ := List.mem_flatMap.1 hcell
  obtain ⟨move, hmove, rfl⟩ := List.mem_map.1 hcell
  obtain ⟨unit, _, hmove⟩ := (Instr.mem_moves_iff (List.mem_range.1 hplane)).1 hmove
  exact h unit move hmove

theorem Instr.targets_act (iteration bound : Index) (action : Action) :
    (Instr.act iteration bound action).targets frame =
      (frame.lanes iteration bound).flatMap fun unit =>
        (action.moves frame iteration (frame.itemOf iteration unit) unit).map Move.target := by
  rw [Instr.targets, ← Frame.flatMap_active, List.flatMap_assoc]
  simp only [Instr.moves, List.map_flatMap]
  rfl

/-- Only a store to the source writes an element, and only a publication writes a total. -/
theorem Instr.target_of_mem_unitMoves {unit : Nat} {move : Move}
    (hmove : move ∈ instr.unitMoves frame unit) :
    (move.target.source? = none ∨ ∃ t bound, instr = .act t bound (.store .source)) ∧
      (move.target.total? = none ∨ ∃ owner, instr = .publish owner) := by
  cases instr with
  | act iteration bound action =>
      obtain ⟨_, hmove⟩ := mem_unitMoves_act.1 hmove
      cases action with
      | pad | load | keep | «recall» | prependCarry =>
          simp_all [Action.moves, Cell.source?, Cell.total?]
      | post | prepend =>
          simp only [Action.moves] at hmove
          split at hmove <;> simp_all [Cell.source?, Cell.total?]
      | store region => cases region <;> simp_all [Action.moves, Frame.cell, Cell.source?, Cell.total?]
  | scanPlane iteration bound =>
      obtain ⟨_, _, rfl⟩ := of_mem_unitMoves_scanPlane hmove
      exact ⟨.inl rfl, .inl rfl⟩
  | fetchCarry =>
      obtain rfl := List.mem_singleton.1 hmove
      exact ⟨.inl rfl, .inl rfl⟩
  | fetchItem owner item =>
      obtain ⟨_, rfl⟩ := mem_unitMoves_fetchItem.1 hmove
      exact ⟨.inl rfl, .inl rfl⟩
  | publish owner =>
      obtain ⟨_, rfl⟩ := mem_unitMoves_publish.1 hmove
      exact ⟨.inl rfl, .inr ⟨owner, rfl⟩⟩
  | barrier => cases hmove

theorem Instr.totals_eq_nil (h : ∀ owner, instr ≠ .publish owner) :
    (instr.targets frame).filterMap Cell.total? = [] := by
  apply Instr.filterMap_targets_eq_nil
  intro unit move hmove
  apply (Instr.target_of_mem_unitMoves hmove).2.resolve_right
  rintro ⟨owner, rfl⟩
  exact h owner rfl

theorem Instr.elements_eq_nil (h : ∀ t bound, instr ≠ .act t bound (.store .source)) :
    (instr.targets frame).filterMap Cell.source? = [] := by
  apply Instr.filterMap_targets_eq_nil
  intro unit move hmove
  apply (Instr.target_of_mem_unitMoves hmove).1.resolve_right
  rintro ⟨t, bound, rfl⟩
  exact h t bound rfl

/-- A unit of the cube publishes once, as it is in one plane. -/
theorem Instr.totals_publish {owner : Index} (howner : owner.toNat < frame.cubeDim) :
    ((Instr.publish owner).targets frame).filterMap Cell.total? = [frame.position.toNat] := by
  have hplane : owner.toNat / frame.planeDim < frame.numPlanes := by
    rw [Nat.div_lt_iff_lt_mul frame.planeDim_pos, frame.numPlanes_mul]
    exact howner
  rw [Instr.targets, List.filterMap_flatMap, ← flatMap_range_single [frame.position.toNat] hplane]
  apply List.flatMap_congr
  intro plane _
  rw [Instr.moves]
  by_cases howns : plane = owner.toNat / frame.planeDim
  · rw [if_pos (Frame.mem_units.2 howns.symm), if_pos howns]
    rfl
  · rw [if_neg fun hmem => howns (Frame.mem_units.1 hmem).symm, if_neg howns]
    rfl

/-- Code without a store to the source writes no element. -/
theorem elements_eq_nil {code : List Instr}
    (h : ∀ instr ∈ code, ∀ t bound, instr ≠ .act t bound (.store .source)) :
    (code.flatMap (Instr.targets frame)).filterMap Cell.source? = [] := by
  rw [List.filterMap_flatMap, List.flatMap_eq_nil_iff]
  intro instr hinstr
  exact Instr.elements_eq_nil (h instr hinstr)

/-- The elements that units store are those of their items. -/
theorem Instr.elements_store (iteration bound : Index) :
    ((Instr.act iteration bound (.store .source)).targets frame).filterMap Cell.source? =
      (frame.lanes iteration bound).map fun unit =>
        (frame.offset + frame.itemOf iteration unit).toNat := by
  rw [Instr.targets_act, List.filterMap_flatMap, List.map_eq_flatMap]
  rfl

end Instructions

/-! ## Kernels -/

section Kernels

variable {frame : Frame}

theorem ScanCode.ne_publish {settings : Settings} {region : Region} {level : Nat} {range : Index}
    {code : List Instr} (h : ScanCode settings region level range code) :
    ∀ instr ∈ code, ∀ owner, instr ≠ .publish owner := by
  rintro _ hinstr owner rfl
  cases h.ofScan _ hinstr

/-- A reduction writes the total of its position, once. -/
theorem Program.reduce_totals {program : Program}
    (hprogram : Program.reduce frame.settings = .ok program) :
    (program.targets frame).filterMap Cell.total? = [frame.position.toNat] := by
  obtain ⟨scan, owner, hscan, howner, rfl⟩ := Program.reduce_eq_ok hprogram
  have hcode := ScanCode.of_cubeScan hscan
    (Settings.pads_of_dvd frame.settings.planeDim_dvd_granularity)
  have hunit : owner.toNat < frame.cubeDim := by
    rw [howner]
    exact Nat.mod_lt _ frame.cubeDim_pos
  have hnone : (scan.code.flatMap (Instr.targets frame)).filterMap Cell.total? = [] := by
    rw [List.filterMap_flatMap, List.flatMap_eq_nil_iff]
    intro instr hinstr
    exact Instr.totals_eq_nil (hcode.ne_publish instr hinstr)
  rw [Program.targets, List.flatMap_append, List.filterMap_append, hnone, List.nil_append,
    List.flatMap_cons, List.filterMap_append, Instr.totals_eq_nil fun _ => Instr.noConfusion,
    List.nil_append, List.flatMap_singleton, Instr.totals_publish hunit]

/-- The items of the units, iteration by iteration, are those of a sweep. -/
theorem Frame.flatMap_lanes (frame : Frame) (bound iterations : Index) {β : Type} (g : Index → β) :
    ((List.range iterations.toNat).flatMap fun t =>
      (frame.lanes (BitVec.ofNat 32 t) bound).map fun unit =>
        g (frame.itemOf (BitVec.ofNat 32 t) unit)) =
      ((frame.partition bound).sweep iterations).map fun visit => g visit.item := by
  rw [Partition.sweep, List.map_flatMap]
  apply List.flatMap_congr
  intro t _
  rw [Frame.lanes, List.map_filterMap, ← List.filterMap_eq_map, List.filterMap_filter]
  apply List.filterMap_congr
  intro unit _
  have hcovers : (frame.partition bound).covers (BitVec.ofNat 32 t) (BitVec.ofNat 32 unit) =
      decide (frame.itemOf (BitVec.ofNat 32 t) unit < bound) := rfl
  simp only [hcovers]
  split <;> rfl

/-- The elements that an unrolled loop writes if each iteration ends with a store: those of the items that a
sweep visits. -/
theorem Program.elements_unroll (body : Index → List Instr)
    (hbody : ∀ t, ∀ instr ∈ body t, ∀ t' bound, instr ≠ .act t' bound (.store .source))
    (range iterations : Index) :
    ((Program.unroll iterations fun t => body t ++ [.act t range (.store .source)]).flatMap
        (Instr.targets frame)).filterMap Cell.source? =
      ((frame.partition range).sweep iterations).map fun visit =>
        (frame.offset + visit.item).toNat := by
  refine Eq.trans ?_ (frame.flatMap_lanes range _ fun item => (frame.offset + item).toNat)
  rw [Program.unroll, List.flatMap_assoc, List.filterMap_flatMap]
  apply List.flatMap_congr
  intro t _
  rw [List.flatMap_append, List.filterMap_append, elements_eq_nil (hbody _), List.nil_append,
    List.flatMap_singleton, Instr.elements_store]

/-- The scan of chunk totals does not store to the source. -/
theorem ScanCode.ne_store {settings : Settings} {region : Region} {level : Nat} {range : Index}
    {code : List Instr} (h : ScanCode settings region level range code) (hregion : region ≠ .source) :
    ∀ instr ∈ code, ∀ t bound, instr ≠ .act t bound (.store .source) := by
  rintro _ hinstr t bound rfl
  cases h.ofScan _ hinstr with
  | act hsource => exact hregion (hsource rfl).1

/-- A scan of the source writes the elements of the items that a sweep visits. -/
theorem ScanCode.elements {level : Nat} {range : Index} {code : List Instr}
    (h : ScanCode frame.settings .source level range code) {iterations : Index}
    (hcount : iterations.toNat = (range.toNat + frame.cubeDim - 1) / frame.cubeDim) :
    (code.flatMap (Instr.targets frame)).filterMap Cell.source? =
      ((frame.partition range).sweep iterations).map fun visit =>
        (frame.offset + visit.item).toNat := by
  cases h with
  | @plane _ _ _ padded iterations' _ hiterations =>
      obtain rfl : iterations' = iterations := BitVec.eq_of_toNat_eq (hiterations.trans hcount.symm)
      exact Program.elements_unroll (fun t => chunkCode .source t range padded) (by simp [chunkCode])
        range iterations'
  | @chunks _ _ _ padded chunks iterations' inner _ _ _ hiterations hinner =>
      obtain rfl : iterations' = iterations := BitVec.eq_of_toNat_eq (hiterations.trans hcount.symm)
      have hfirst : ∀ instr ∈ Program.chunkPhase .source level range padded iterations',
          ∀ t bound, instr ≠ .act t bound (.store .source) := by
        intro instr hinstr t' bound
        obtain ⟨t, _, hinstr⟩ := Program.mem_unroll.1 hinstr
        simp only [List.mem_cons, List.not_mem_nil, or_false] at hinstr
        rcases hinstr with rfl | rfl | rfl | rfl | rfl <;> simp
      have hlast : ((Program.foldPhase .source level range iterations').flatMap
          (Instr.targets frame)).filterMap Cell.source? = _ :=
        Program.elements_unroll (fun t => [.act t range (.recall level),
          .act t range (.prepend level)]) (by simp) range iterations'
      have hbarrier : (Instr.barrier.targets frame).filterMap Cell.source? = [] :=
        Instr.elements_eq_nil (by simp)
      rw [List.flatMap_append, List.flatMap_append, List.flatMap_cons, List.flatMap_cons,
        List.filterMap_append, List.filterMap_append, List.filterMap_append, List.filterMap_append,
        hbarrier, elements_eq_nil hfirst, elements_eq_nil (hinner.ne_store (by simp)), hlast]
      rfl

/-- An expansion writes the elements of the items that the device visits. -/
theorem Program.expand_elements_eq_sweep (frame : Frame) :
    ((Program.expand frame.settings).targets frame).filterMap Cell.source? =
      ((frame.partition frame.settings.granularity).sweep
        (frame.partition frame.settings.granularity).runtimeIterations).map fun visit =>
          (frame.offset + visit.item).toNat := by
  rw [← Program.elements_unroll (fun t => [.act t frame.settings.granularity (.load .source),
    .act t frame.settings.granularity .prependCarry]) (by simp)]
  rw [Program.targets, Program.expand, Program.flat, List.flatMap_cons, List.filterMap_append,
    Instr.elements_eq_nil (by simp), List.nil_append]
  rfl

/-- An expansion writes every element of its block once, one after the other, unless the device's count of
the iterations wraps.  Then it writes none. -/
theorem Program.expand_elements (hreach : frame.Reaches frame.granularity .source) :
    ((Program.expand frame.settings).targets frame).filterMap Cell.source? =
      if frame.granularity + frame.cubeDim ≤ 2 ^ 32 then
        List.range' frame.offset.toNat frame.granularity
      else [] := by
  have hpos : 0 < (frame.partition frame.settings.granularity).localSize.toNat :=
    frame.cubeDim_pos
  rw [Program.expand_elements_eq_sweep]
  split
  · rename_i hfit
    have hcount := Partition.toNat_runtimeIterations
      (p := frame.partition frame.settings.granularity) hfit hpos
    have hslots := (Partition.runtimeIterations_eq hpos hcount hfit).2
    rw [Partition.sweep_eq_due hpos (hcount ▸ le_ceil_mul hpos) hslots, Partition.due, List.map_map,
      List.range'_eq_map_range]
    apply List.map_congr_left
    intro i hi
    have hitem : i < frame.granularity := List.mem_range.1 hi
    have hword : frame.offset.toNat + frame.granularity ≤ 2 ^ 32 := hreach
    change (frame.offset + BitVec.ofNat 32 i).toNat = frame.offset.toNat + i
    rw [BitVec.toNat_add, BitVec.toNat_ofNat, Nat.add_mod_mod, Nat.mod_eq_of_lt (by omega)]
  · rename_i hwrap
    rw [Partition.sweep_of_wrap (Nat.not_le.1 hwrap)]
    rfl

end Kernels

/-! ## What is not written -/

section Untouched

variable {α : Type} [Inhabited α] {op : Operator α} {fill : α} {frame : Frame} {cell : Cell}

theorem Instr.read_of_notMem_targets {instr : Instr} {m : Memory α}
    (hcell : cell ∉ instr.targets frame) : (instr.run op frame m).read cell = m.read cell := by
  rw [Instr.run, applyAll_flatMap]
  apply Move.read_applyAll_of_ne
  intro move hmove htarget
  obtain ⟨plane, hplane, hmove⟩ := List.mem_flatMap.1 hmove
  have hmem : move.target ∈ instr.targets frame :=
    List.mem_flatMap.2 ⟨plane, hplane, List.mem_map_of_mem hmove⟩
  exact hcell (htarget ▸ hmem)

theorem read_runCode_of_notMem {code : List Instr} {m : Memory α}
    (hcell : cell ∉ code.flatMap (Instr.targets frame)) :
    (runCode op frame m code).read cell = m.read cell := by
  induction code generalizing m with
  | nil => rfl
  | cons instr code ih =>
      rw [List.flatMap_cons, List.mem_append, not_or] at hcell
      exact (ih hcell.2).trans (Instr.read_of_notMem_targets hcell.1)

/-- An element that a cube does not write is as it was. -/
theorem Program.source_of_notMem {program : Program} {buffers : Buffers α} {i : Nat}
    (hi : i ∉ (program.targets frame).filterMap Cell.source?) :
    (program.run op frame fill buffers).source.getD i default = buffers.source.getD i default := by
  have hcell : Cell.source i ∉ program.code.flatMap (Instr.targets frame) := fun hmem =>
    hi (List.mem_filterMap.2 ⟨.source i, hmem, rfl⟩)
  exact read_runCode_of_notMem hcell

end Untouched

end PrefixScan.Cube
