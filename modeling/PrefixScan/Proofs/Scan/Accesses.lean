import PrefixScan.Proofs.Scan.Orders
import PrefixScan.Proofs.Scan.Trail

/-!
# Accesses of a scan

The cubes of a pass read and write items of their blocks and the totals of their positions.  The checks of a
scan make sure that these lie in the levels of the cascade.  They do not look at the buffer: it is accessed
up to the length of the scan, whatever it holds.

## Main definitions

* `Cube.Grid.Accesses` — the cells that a launch reads or writes.
* `Scan.Accessed` — the elements of the buffers that the passes read or write.
* `Scan.InBounds` — all accesses to a buffer lie inside of it.

## Main results

* `Scan.lt_of_accessed` — what passes access of their source and of their totals.
* `Scan.accesses_inBounds_iff` — the levels always hold what is accessed of them, the buffer does if it
  holds as many elements as are scanned.
-/

namespace PrefixScan

open Cascade

/-! ## Accesses of cubes -/

/-- A cube of the launch reads or writes the cell. -/
def Cube.Grid.Accesses (grid : Cube.Grid) (cell : Cube.Cell) : Prop :=
  ∃ cube < grid.numCubes, ∃ plane < grid.numPlanes, ∃ instr ∈ grid.program.code,
    ∃ move ∈ instr.moves (grid.frame cube) plane, cell ∈ move.target :: move.reads

namespace Scan

open PrefixScan.Cube

variable {settings : Settings} {layout : Layout} {passes : List Pass} {pass : Pass} {grid : Grid}

/-- A launch accesses what the units of its cubes access. -/
theorem accesses_iff {cell : Cell} : grid.Accesses cell ↔
    ∃ cube < grid.numCubes, ∃ unit < grid.settings.cubeDim.toNat, ∃ instr ∈ grid.program.code,
      ∃ move ∈ instr.unitMoves (grid.frame cube) unit, cell ∈ move.target :: move.reads := by
  constructor
  · rintro ⟨cube, hcube, plane, hplane, instr, hinstr, move, hmove, hcell⟩
    obtain ⟨unit, hunit, hmove⟩ := (Instr.mem_moves_iff hplane).1 hmove
    exact ⟨cube, hcube, unit, Frame.lt_cubeDim_of_mem_units hplane hunit, instr, hinstr, move,
      hmove, hcell⟩
  · rintro ⟨cube, hcube, unit, hunit, instr, hinstr, move, hmove, hcell⟩
    have hplanes : unit ∈ (List.range grid.numPlanes).flatMap (grid.frame cube).units := by
      have hall := (grid.frame cube).flatMap_units
      exact hall ▸ List.mem_range.2 hunit
    obtain ⟨plane, hplane, hmem⟩ := List.mem_flatMap.1 hplanes
    have hplane := List.mem_range.1 hplane
    exact ⟨cube, hcube, plane, hplane, instr, hinstr, move,
      (Instr.mem_moves_iff hplane).2 ⟨unit, hmem, hmove⟩, hcell⟩

/-- A launch accesses what its cubes address on their blocks. -/
theorem exists_addresses (hgrid : Scan.grid settings pass = .ok grid) {cell : Cell}
    (h : grid.Accesses cell) : ∃ cube < grid.numCubes, (grid.frame cube).Addresses cell := by
  obtain ⟨hsettings, hwithin⟩ := grid_within hgrid
  obtain ⟨cube, hcube, unit, _, instr, hinstr, move, hmove, hcell⟩ := accesses_iff.1 h
  have hinstrWithin : instr.Within (grid.frame cube).settings.granularity := by
    have hframe : (grid.frame cube).settings = settings := hsettings
    rw [hframe]
    exact hwithin instr hinstr
  exact ⟨cube, hcube, hinstrWithin.addresses hmove cell hcell⟩

/-- A pass accesses no more of its source than the blocks that it processes or skips, and no more totals.
Positions that wrap only lead to lower elements. -/
theorem lt_of_accesses (hgrid : Scan.grid settings pass = .ok grid) {blocks : Nat}
    (hblocks : pass.cubeCount.toNat + pass.sweep.skipped ≤ blocks) :
    (∀ i, grid.Accesses (.source i) → i < blocks * settings.granularity.toNat) ∧
    (∀ i, grid.Accesses (.total i) → i < blocks) := by
  obtain ⟨grid', hgrid', hsettings, hcount, hoffset⟩ := grid_isOk settings pass
  obtain rfl : grid = grid' := Except.ok.inj (hgrid.symm.trans hgrid')
  have hcubes : ∀ cube < grid.numCubes, cube + pass.sweep.skipped + 1 ≤ blocks := by
    intro cube hcube
    have hlt : cube < pass.cubeCount.toNat := hcount ▸ hcube
    omega
  constructor
  · intro i hi
    obtain ⟨cube, hcube, item, hitem, hcell⟩ := exists_addresses hgrid hi
    have hlt : item.toNat < settings.granularity.toNat := hsettings ▸ BitVec.lt_def.1 hitem
    have hframe : (grid.frame cube).offset + item =
        BitVec.ofNat 32 ((cube + pass.sweep.skipped) * settings.granularity.toNat + item.toNat) := by
      show grid.offset (BitVec.ofNat 32 cube) + item = _
      rw [hoffset, BitVec.ofNat_add, BitVec.ofNat_mul, BitVec.ofNat_add, BitVec.ofNat_toNat,
        BitVec.ofNat_toNat, BitVec.setWidth_eq, BitVec.setWidth_eq]
    rw [Frame.cell, hframe, BitVec.toNat_ofNat, Cell.source.injEq] at hcell
    calc i ≤ (cube + pass.sweep.skipped) * settings.granularity.toNat + item.toNat :=
          hcell ▸ Nat.mod_le _ _
      _ < (cube + pass.sweep.skipped + 1) * settings.granularity.toNat := by
          rw [Nat.succ_mul]
          omega
      _ ≤ blocks * settings.granularity.toNat := Nat.mul_le_mul_right _ (hcubes cube hcube)
  · intro i hi
    obtain ⟨cube, hcube, htotal⟩ := exists_addresses hgrid hi
    have hindex : i = cube := htotal.trans (Grid.toNat_position hcube)
    have hle := hcubes cube hcube
    omega

/-- Every cube of a reduction reads the last item of its block back. -/
theorem accesses_last_item {level : Nat} {cubeCount : Index}
    (hgrid : Scan.grid settings ⟨.reduce, level, cubeCount⟩ = .ok grid) {cube : Nat}
    (hcube : cube < grid.numCubes) :
    grid.Accesses ((grid.frame cube).cell (settings.granularity - 1) .source) := by
  obtain ⟨program, hprogram, hgrid⟩ := bind_eq_ok.1 hgrid
  obtain ⟨scan, owner, _, howner, rfl⟩ := Program.reduce_eq_ok hprogram
  cases hgrid
  have hunit : owner.toNat < settings.cubeDim.toNat := by
    rw [howner]
    exact Nat.mod_lt _ settings.cubeDim_pos
  exact accesses_iff.2 ⟨cube, hcube, owner.toNat, hunit, .fetchItem owner (settings.granularity - 1),
    by simp, _, Instr.mem_unitMoves_fetchItem.2 ⟨rfl, rfl⟩, by simp [Move.reads, Operand.reads]⟩

/-- The last element of the buffer is accessed, if 32-bit positions reach it. -/
theorem accesses_last (h : layout.Whole) (hpasses : layout.passes = .ok passes)
    (hgran : settings.granularity.toNat = layout.granularity.toNat)
    (hreach : layout.inputLength.toNat ≤ 2 ^ 32) :
    ∃ grid, Scan.grid settings (layout.reduction 0) = .ok grid ∧
      grid.Accesses (.source (layout.inputLength.toNat - 1)) := by
  have htwo := settings.two_le_granularity
  have hblocks : 0 < layout.count 1 := h.count_pos 1
  have hexact := (addressed_mod h hpasses (h.reduction_zero_mem hpasses)).exact h hreach
  obtain ⟨grid, hgrid, hcount, hcells⟩ := hexact.cells settings hgran
  have hlast : layout.count 1 - 1 < (layout.reduction 0).cubeCount.toNat := by
    rw [hexact.count]
    show layout.count 1 - 1 < layout.count 1 - 0
    omega
  have hitem := Word.toNat_sub_one (Nat.zero_lt_of_lt htwo)
  have hsplit : (layout.count 1 - 1 + 1) * layout.granularity.toNat = layout.inputLength.toNat := by
    rw [Nat.sub_add_cancel hblocks]
    exact h.count_one_mul
  have hindex : (layout.count 1 - 1 + 0) * layout.granularity.toNat +
      (settings.granularity - 1).toNat = layout.inputLength.toNat - 1 := by
    rw [Nat.succ_mul] at hsplit
    rw [hitem, Nat.add_zero]
    omega
  have hcell : (grid.frame (layout.count 1 - 1)).cell (settings.granularity - 1) .source =
      .source (layout.inputLength.toNat - 1) :=
    ((hcells _ hlast).2.2 (settings.granularity - 1) (by omega)).trans (congrArg _ hindex)
  have haccess := accesses_last_item hgrid (Nat.lt_of_lt_of_eq hlast (congrArg _ hcount.symm))
  rw [hcell] at haccess
  exact ⟨grid, hgrid, haccess⟩

/-! ## Accesses of passes -/

/-- A pass reads or writes element `i` of buffer `k`, where buffer 0 is the data and buffer `k + 1` holds
the totals of level `k`. -/
def Accessed (settings : Settings) (passes : List Pass) (k i : Nat) : Prop :=
  ∃ pass ∈ passes, ∃ grid, Scan.grid settings pass = .ok grid ∧
    (pass.level = k ∧ grid.Accesses (.source i) ∨ pass.level + 1 = k ∧ grid.Accesses (.total i))

/-- All that passes read or write of buffer `k` lies inside of it. -/
def InBounds {α : Type} (settings : Settings) (passes : List Pass) (store : Store α) (k : Nat) : Prop :=
  ∀ i, Accessed settings passes k i → i < (store.source k).size

/-- What passes access of a buffer lies in the blocks that are the source of a level, or it is one of the
totals of a level. -/
theorem cases_of_accessed (hpos : 0 < layout.granularity.toNat) (hn : 0 < layout.inputLength.toNat)
    (hshape : Shape layout.granularity.toNat layout.inputLength.toNat layout.levels)
    (hpasses : layout.passes = .ok passes) {k i : Nat} (haccessed : Accessed settings passes k i) :
    (k < layout.numLevels ∧ i < layout.count (k + 1) * settings.granularity.toNat) ∨
      ∃ level < layout.numLevels, k = level + 1 ∧ i < layout.count (level + 1) := by
  obtain ⟨pass, hpass, grid, hgrid, haccess⟩ := haccessed
  obtain ⟨hlevel, hblocks⟩ := Layout.cubeCount_le hpos hshape hn hpasses hpass
  obtain ⟨hsource, htotal⟩ := lt_of_accesses hgrid hblocks
  rcases haccess with ⟨rfl, haccess⟩ | ⟨rfl, haccess⟩
  · exact .inl ⟨hlevel, hsource i haccess⟩
  · exact .inr ⟨pass.level, hlevel, rfl, htotal i haccess⟩

/-- The buffers that are accessed are the data and the levels, up to the length of their whole blocks. -/
theorem lt_of_accessed (h : layout.Whole) (hpasses : layout.passes = .ok passes)
    (hgran : settings.granularity.toNat = layout.granularity.toNat) {k i : Nat}
    (haccessed : Accessed settings passes k i) :
    k ≤ layout.numLevels ∧ i < layout.count (k + 1) * layout.granularity.toNat := by
  rcases cases_of_accessed h.granularity_pos h.pos h.shape hpasses haccessed with
    ⟨hlevel, hsource⟩ | ⟨level, hlevel, rfl, htotal⟩
  · exact ⟨Nat.le_of_lt hlevel, hgran ▸ hsource⟩
  · exact ⟨hlevel, Nat.lt_of_lt_of_le htotal (count_le_mul h.granularity_pos (level + 1))⟩

/-- The levels hold what passes access of them. -/
theorem inBounds_level (h : layout.Whole) (hpasses : layout.passes = .ok passes)
    (hgran : settings.granularity.toNat = layout.granularity.toNat) {α : Type} {store : Store α}
    (hstores : layout.Stores store.levels) (k : Nat) : InBounds settings passes store (k + 1) := by
  intro i hi
  obtain ⟨hlevel, hlt⟩ := lt_of_accessed h hpasses hgran hi
  show i < (store.levels.getD k #[]).size
  rwa [hstores.size_eq h hlevel]

/-- A buffer as long as the scan holds what passes access of it. -/
theorem inBounds_data (h : layout.Whole) (hpasses : layout.passes = .ok passes)
    (hgran : settings.granularity.toNat = layout.granularity.toNat) {α : Type} {store : Store α}
    (hdata : layout.inputLength.toNat ≤ store.data.size) : InBounds settings passes store 0 := by
  intro i hi
  have hlt := (lt_of_accessed h hpasses hgran hi).2
  have hle := h.count_mul_le 0
  exact Nat.lt_of_lt_of_le hlt (Nat.le_trans hle hdata)

/-- Only a buffer as long as the scan does, if 32-bit positions reach the end of the scan. -/
theorem size_of_inBounds (h : layout.Whole) (hpasses : layout.passes = .ok passes)
    (hgran : settings.granularity.toNat = layout.granularity.toNat)
    (hreach : layout.inputLength.toNat ≤ 2 ^ 32) {α : Type} {store : Store α}
    (hbounds : InBounds settings passes store 0) : layout.inputLength.toNat ≤ store.data.size := by
  obtain ⟨grid, hgrid, haccess⟩ := accesses_last h hpasses hgran hreach
  have hlast : layout.inputLength.toNat - 1 < store.data.size :=
    hbounds _ ⟨_, h.reduction_zero_mem hpasses, grid, hgrid, .inl ⟨rfl, haccess⟩⟩
  omega

/-- A scan that is accepted goes through all of its passes, whatever the size of the buffer.  They read and
write inside of the levels of the cascade.  They do so inside of the buffer if it holds as many elements as
are scanned, and, if 32-bit positions reach the last of these, only then. -/
theorem accesses_inBounds_iff {device : Device} {config : Config} {length : Size}
    (haccept : accept device config length layout = .ok settings) (hbuilt : layout.Built)
    {α : Type} [Inhabited α] (op : Operator α) (fill : α) {store : Store α}
    (hstores : layout.Stores store.levels) :
    ∃ submission after passes,
      hierarchical op fill device config length layout store = .ok submission ∧
      submission.result = .ok after ∧ layout.passes = .ok passes ∧
      (∀ k, InBounds settings passes store (k + 1)) ∧
      (length.toNat ≤ store.data.size → InBounds settings passes store 0) ∧
      (length.toNat ≤ 2 ^ 32 → InBounds settings passes store 0 →
        length.toNat ≤ store.data.size) := by
  have haccepted := accepted_of_accept haccept
  have hwhole := haccepted.whole hbuilt
  have hpasses := hwhole.passes_eq
  have hgran := haccepted.granularity_eq.symm
  obtain ⟨after, hlaunch⟩ := launch_isOk op fill settings hwhole store
  obtain rfl := haccepted.inputLength
  exact ⟨_, after, _, hierarchical_of_accept op fill haccept store, hlaunch _ _ _, hpasses,
    inBounds_level hwhole hpasses hgran hstores, inBounds_data hwhole hpasses hgran,
    fun hreach => size_of_inBounds hwhole hpasses hgran hreach⟩

/-- Four elements of a buffer of four. -/
theorem accesses_inBounds_iff_four :
    ∃ settings passes,
      accept { planeMin := 2, planeMax := 2 } { granularity := 2, cubeDim := 2 } 4
        ⟨4, 2, [⟨2, 2⟩, ⟨1, 2⟩]⟩ = .ok settings ∧
      (Layout.mk 4 2 [⟨2, 2⟩, ⟨1, 2⟩]).passes = .ok passes ∧
      ∀ k, InBounds settings passes
        (⟨#[1, 2, 3, 4], #[#[0, 0], #[0, 0]]⟩ : Store (BitVec 32)) k := by
  obtain ⟨settings, haccept⟩ : ∃ settings, accept { planeMin := 2, planeMax := 2 }
      { granularity := 2, cubeDim := 2 } 4 ⟨4, 2, [⟨2, 2⟩, ⟨1, 2⟩]⟩ = .ok settings := ⟨_, rfl⟩
  have hbuilt : (Layout.mk 4 2 [⟨2, 2⟩, ⟨1, 2⟩]).Built := by
    unfold Layout.Built
    cbv
  obtain ⟨_, _, passes, _, _, hpasses, hlevels, hdata, _⟩ :=
    @accesses_inBounds_iff settings _ _ _ _ haccept hbuilt (BitVec 32) _ Operator.sum 9
      ⟨#[1, 2, 3, 4], #[#[0, 0], #[0, 0]]⟩ (Layout.stores_of_sizes rfl)
  refine ⟨settings, passes, haccept, hpasses, ?_⟩
  intro k
  cases k with
  | zero => exact hdata (by decide)
  | succ k => exact hlevels k

/-- Four elements of a buffer of three are accepted and scanned, but the fourth is not in the buffer. -/
theorem scans_past_short_buffer :
    ∃ settings submission passes,
      accept { planeMin := 2, planeMax := 2 } { granularity := 2, cubeDim := 2 } 4
        ⟨4, 2, [⟨2, 2⟩, ⟨1, 2⟩]⟩ = .ok settings ∧
      hierarchical Operator.sum 9 { planeMin := 2, planeMax := 2 }
        { granularity := 2, cubeDim := 2 } 4 ⟨4, 2, [⟨2, 2⟩, ⟨1, 2⟩]⟩
        (⟨#[1, 2, 3], #[#[0, 0], #[0, 0]]⟩ : Store (BitVec 32)) = .ok submission ∧
      submission.result.isOk = true ∧
      (Layout.mk 4 2 [⟨2, 2⟩, ⟨1, 2⟩]).passes = .ok passes ∧
      ¬InBounds settings passes (⟨#[1, 2, 3], #[#[0, 0], #[0, 0]]⟩ : Store (BitVec 32)) 0 := by
  obtain ⟨settings, haccept⟩ : ∃ settings, accept { planeMin := 2, planeMax := 2 }
      { granularity := 2, cubeDim := 2 } 4 ⟨4, 2, [⟨2, 2⟩, ⟨1, 2⟩]⟩ = .ok settings := ⟨_, rfl⟩
  have hbuilt : (Layout.mk 4 2 [⟨2, 2⟩, ⟨1, 2⟩]).Built := by
    unfold Layout.Built
    cbv
  have haccepted := accepted_of_accept haccept
  have hwhole := haccepted.whole hbuilt
  obtain ⟨after, hlaunch⟩ := launch_isOk Operator.sum (9 : BitVec 32) settings hwhole
    ⟨#[1, 2, 3], #[#[0, 0], #[0, 0]]⟩
  refine ⟨settings, _, _, haccept, hierarchical_of_accept _ _ haccept _, ?_, hwhole.passes_eq, ?_⟩
  · rw [hlaunch]
    rfl
  · intro hbounds
    have hsize := size_of_inBounds hwhole hwhole.passes_eq haccepted.granularity_eq.symm
      (by decide) hbounds
    exact absurd hsize (by decide)

end Scan

end PrefixScan
