import PrefixScan.Proofs.Cube.Cubes
import PrefixScan.Proofs.Cube.Grid

/-!
# Cubes on blocks

The kernels of the two sweeps address the items of the block of their cube and the total of its position,
and nothing else of the buffers.  So no cube of a launch comes across another, as long as the blocks do not
overlap and none of them reaches past the end of the address space, where positions would start again.

## Main definitions

* `Instr.Within` — instructions that address the first items of a block only.
* `Instr.OfScan` — the instructions of a scan.
* `Frame.Addresses` — the cells that such instructions address.
* `Frame.Belongs` — the elements of the buffers that belong to a cube.

## Main results

* `Program.reduce_within`, `Program.expand_within` — the kernels keep to their block.
* `Grid.separate_of_blocks` — cubes on blocks one after the other are separate.
-/

namespace PrefixScan.Cube

/-! ## Instructions on a block -/

/-- The action addresses the source. -/
def Action.OnSource : Action → Prop
  | .load region | .store region => region = .source
  | _ => False

/-- Of the source, the instruction addresses the first `range` items of the block at most. -/
def Instr.Within (range : Index) : Instr → Prop
  | .act _ bound action => action.OnSource → bound ≤ range
  | .fetchItem _ item => item < range
  | _ => True

/-- What a cube addresses on its block: items of the block, wherever their positions wrap to, and the total
of its own position. -/
def Frame.Addresses (frame : Frame) : Cell → Prop
  | .source i => ∃ item < frame.settings.granularity, frame.cell item .source = .source i
  | .total k => k = frame.position.toNat
  | _ => True

/-- The elements of the buffers that belong to the cube: those of its block, and its total. -/
def Frame.Belongs (frame : Frame) : Cell → Prop
  | .source i => frame.offset.toNat ≤ i ∧ i < frame.offset.toNat + frame.granularity
  | .total k => k = frame.position.toNat
  | _ => True

section Frame

variable {frame : Frame}

theorem Frame.addresses_cell {item : Index} (hitem : item < frame.settings.granularity) :
    frame.Addresses (frame.cell item .source) := ⟨item, hitem, rfl⟩

/-- The cells of an action are addressed if its items of the source are items of the block. -/
theorem Action.addresses {iteration item : Index} {unit : Nat} {action : Action}
    (h : action.OnSource → item < frame.settings.granularity)
    {move : Move} (hmove : move ∈ action.moves frame iteration item unit) :
    ∀ cell ∈ move.target :: move.reads, frame.Addresses cell := by
  cases action with
  | pad | keep level | «recall» level | prependCarry =>
      simp_all [Action.moves, Move.reads, Operand.reads, Frame.Addresses]
  | post level | prepend level =>
      simp only [Action.moves] at hmove
      split at hmove <;> simp_all [Move.reads, Operand.reads, Frame.Addresses]
  | load region | store region =>
      cases region with
      | shared level =>
          simp_all [Action.moves, Move.reads, Operand.reads, Frame.Addresses, Frame.cell]
      | source =>
          have hcell := Frame.addresses_cell (h rfl)
          simp_all [Action.moves, Move.reads, Operand.reads, Frame.Addresses]

/-- Units of a cube that keep to its block address nothing but items of the block and its total. -/
theorem Instr.Within.addresses {instr : Instr} (h : instr.Within frame.settings.granularity)
    {unit : Nat} {move : Move} (hmove : move ∈ instr.unitMoves frame unit) :
    ∀ cell ∈ move.target :: move.reads, frame.Addresses cell := by
  cases instr with
  | act iteration bound action =>
      obtain ⟨hunit, hmove⟩ := mem_unitMoves_act.1 hmove
      have hitem := BitVec.lt_def.1 (frame.mem_lanes.1 hunit).2
      refine Action.addresses ?_ hmove
      intro hsource
      exact BitVec.lt_def.2 (Nat.lt_of_lt_of_le hitem (BitVec.le_def.1 (h hsource)))
  | scanPlane iteration bound =>
      obtain ⟨previous, _, rfl⟩ := of_mem_unitMoves_scanPlane hmove
      simp [Move.reads, Operand.reads, Frame.Addresses]
  | fetchCarry =>
      obtain rfl := List.mem_singleton.1 hmove
      simp [Move.reads, Operand.reads, Frame.Addresses]
  | fetchItem owner item =>
      obtain ⟨_, rfl⟩ := mem_unitMoves_fetchItem.1 hmove
      have hcell := Frame.addresses_cell h
      simpa [Move.reads, Operand.reads, Frame.Addresses] using hcell
  | publish owner =>
      obtain ⟨_, rfl⟩ := mem_unitMoves_publish.1 hmove
      simp [Move.reads, Operand.reads, Frame.Addresses]
  | barrier => cases hmove

/-- If positions reach the end of the block, what a cube addresses belongs to it. -/
theorem Frame.Addresses.belongs (hreach : frame.Reaches frame.granularity .source) {cell : Cell}
    (h : frame.Addresses cell) : frame.Belongs cell := by
  cases cell with
  | source i =>
      obtain ⟨item, hitem, hcell⟩ := h
      have hlt : item.toNat < frame.granularity := BitVec.lt_def.1 hitem
      rw [hreach.cell_eq hlt] at hcell
      cases hcell
      exact ⟨Nat.le_add_right _ _, Nat.add_lt_add_left hlt _⟩
  | total | shared | kept | value | carry => exact h

end Frame

/-! ## The kernels of the two sweeps -/

/-- An instruction of a scan of `range` items of a region: it addresses the source only if that is the
region, and then the items of the range. -/
inductive Instr.OfScan (region : Region) (range : Index) : Instr → Prop
  | act {t bound : Index} {action : Action}
      (hsource : action.OnSource → region = .source ∧ bound = range) :
      OfScan region range (.act t bound action)
  | scanPlane {t bound : Index} : OfScan region range (.scanPlane t bound)
  | barrier : OfScan region range .barrier

/-- The scan of chunk totals does not address the source. -/
theorem Instr.OfScan.of_shared {level : Nat} {chunks : Index} {instr : Instr}
    (h : instr.OfScan (.shared level) chunks) (region : Region) (range : Index) :
    instr.OfScan region range := by
  cases h with
  | act hsource => exact .act fun h => Region.noConfusion (hsource h).1
  | scanPlane => exact .scanPlane
  | barrier => exact .barrier

theorem ScanCode.ofScan {settings : Settings} {region : Region} {level : Nat} {range : Index}
    {code : List Instr} (h : ScanCode settings region level range code) :
    ∀ instr ∈ code, instr.OfScan region range := by
  induction h with
  | plane =>
      intro instr hinstr
      obtain ⟨t, _, hinstr⟩ := Program.mem_unroll.1 hinstr
      simp only [chunkCode, List.cons_append, List.nil_append, List.mem_cons, List.not_mem_nil,
        or_false] at hinstr
      rcases hinstr with rfl | rfl | rfl | rfl
      · exact .act False.elim
      · exact .act fun h => ⟨h, rfl⟩
      · exact .scanPlane
      · exact .act fun h => ⟨h, rfl⟩
  | chunks _ _ _ _ _ ih =>
      intro instr hinstr
      rw [List.mem_append, List.mem_append, List.mem_cons, List.mem_cons] at hinstr
      rcases hinstr with (hinstr | rfl | hinstr) | rfl | hinstr
      · obtain ⟨t, _, hinstr⟩ := Program.mem_unroll.1 hinstr
        simp only [List.mem_cons, List.not_mem_nil, or_false] at hinstr
        rcases hinstr with rfl | rfl | rfl | rfl | rfl
        · exact .act False.elim
        · exact .act fun h => ⟨h, rfl⟩
        · exact .scanPlane
        · exact .act False.elim
        · exact .act False.elim
      · exact .barrier
      · exact (ih instr hinstr).of_shared _ _
      · exact .barrier
      · obtain ⟨t, _, hinstr⟩ := Program.mem_unroll.1 hinstr
        simp only [List.mem_cons, List.not_mem_nil, or_false] at hinstr
        rcases hinstr with rfl | rfl | rfl
        · exact .act False.elim
        · exact .act False.elim
        · exact .act fun h => ⟨h, rfl⟩

/-- A scan addresses no items behind its range. -/
theorem ScanCode.within {settings : Settings} {region : Region} {level : Nat} {range : Index}
    {code : List Instr} (h : ScanCode settings region level range code) {bound : Index}
    (hbound : region = .source → range ≤ bound) : ∀ instr ∈ code, instr.Within bound := by
  intro instr hinstr
  cases h.ofScan instr hinstr with
  | act hsource => exact fun h => (hsource h).2 ▸ hbound (hsource h).1
  | scanPlane => trivial
  | barrier => trivial

theorem Program.reduce_within {settings : Settings} {program : Program}
    (hprogram : Program.reduce settings = .ok program) :
    ∀ instr ∈ program.code, instr.Within settings.granularity := by
  obtain ⟨scan, owner, hscan, _, rfl⟩ := Program.reduce_eq_ok hprogram
  have hcode := ScanCode.of_cubeScan hscan (Settings.pads_of_dvd settings.planeDim_dvd_granularity)
  intro instr hinstr
  rw [List.mem_append, List.mem_cons, List.mem_singleton] at hinstr
  rcases hinstr with hinstr | rfl | rfl
  · exact hcode.within (fun _ => BitVec.le_refl _) instr hinstr
  · have htwo := settings.two_le_granularity
    have hlast := Word.toNat_sub_one (Nat.zero_lt_of_lt htwo)
    exact BitVec.lt_def.2 (by omega)
  · trivial

theorem Program.expand_within (settings : Settings) :
    ∀ instr ∈ (Program.expand settings).code, instr.Within settings.granularity := by
  intro instr hinstr
  rcases List.mem_cons.1 hinstr with rfl | hinstr
  · trivial
  · obtain ⟨t, _, hinstr⟩ := Program.mem_unroll.1 hinstr
    simp only [List.mem_cons, List.not_mem_nil, or_false] at hinstr
    rcases hinstr with rfl | rfl | rfl
    · exact fun _ => BitVec.le_refl _
    · exact nofun
    · exact fun _ => BitVec.le_refl _

/-! ## Blocks one after the other -/

theorem Move.apart_iff {a b : Move} : Move.Apart a b ↔ a.target ∉ b.target :: b.reads := by
  simp [Move.Apart]

section Blocks

variable {grid : Grid} {skipped : Nat}
  (hoffset : ∀ cube < grid.numCubes,
    (grid.frame cube).offset.toNat = (cube + skipped) * grid.settings.granularity.toNat)
include hoffset

/-- The total and the elements of the block of a cube do not belong to a later cube. -/
theorem Grid.not_belongs_later {cube later : Nat} (hlater : later < grid.numCubes)
    (hlt : cube < later) {cell : Cell} (hcommon : cell.Common)
    (hcell : (grid.frame cube).Belongs cell) : ¬(grid.frame later).Belongs cell := by
  cases cell with
  | source i =>
      have hblocks : (cube + skipped + 1) * grid.settings.granularity.toNat ≤
          (later + skipped) * grid.settings.granularity.toNat :=
        Nat.mul_le_mul_right _ (by omega)
      rw [Nat.succ_mul, ← hoffset cube (Nat.lt_trans hlt hlater), ← hoffset later hlater] at hblocks
      intro hother
      exact Nat.not_lt.2 (Nat.le_trans hblocks hother.1) hcell.2
  | total k =>
      intro hother
      have hsame : (grid.frame cube).position.toNat = (grid.frame later).position.toNat :=
        hcell.symm.trans hother
      rw [Grid.toNat_position (Nat.lt_trans hlt hlater), Grid.toNat_position hlater] at hsame
      exact Nat.ne_of_lt hlt hsame
  | shared | kept | value | carry => cases hcommon

/-- Cubes whose programs keep to their blocks are separate if the blocks follow each other, and the end of
the last is no further than positions reach. -/
theorem Grid.separate_of_blocks
    (hreach : ∀ cube < grid.numCubes,
      (cube + skipped + 1) * grid.settings.granularity.toNat ≤ 2 ^ 32)
    (hwithin : ∀ instr ∈ grid.program.code, instr.Within grid.settings.granularity)
    (hfootprints : ∀ cube : Fin grid.numCubes,
      Footprints (grid.frame cube) grid.program.code) : grid.Separate := by
  refine ⟨hfootprints, ?_⟩
  intro cube other hne instr hinstr instr' hinstr' unit _ unit' _ a ha b hb hcommon
  have hword : ∀ cube : Fin grid.numCubes,
      (grid.frame cube).Reaches (grid.frame cube).granularity .source := by
    intro cube
    have hend := hreach cube cube.isLt
    rw [Nat.succ_mul, ← hoffset cube cube.isLt] at hend
    exact hend
  have hbelongs := ((hwithin instr hinstr).addresses ha a.target List.mem_cons_self).belongs
    (hword cube)
  rw [Move.apart_iff]
  intro hmem
  have hother := ((hwithin instr' hinstr').addresses hb a.target hmem).belongs (hword other)
  rcases Nat.lt_or_gt_of_ne (Fin.val_ne_of_ne hne) with hlt | hlt
  · exact Grid.not_belongs_later hoffset other.isLt hlt hcommon hbelongs hother
  · exact Grid.not_belongs_later hoffset cube.isLt hlt hcommon hother hbelongs

end Blocks

end PrefixScan.Cube
