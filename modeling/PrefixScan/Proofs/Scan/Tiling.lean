import PrefixScan.Proofs.Cascade.Sizes
import PrefixScan.Proofs.Cube.Writes
import PrefixScan.Proofs.Scan.Accesses

/-!
# Tilings of sources

The number of cubes of a reduction comes from the padded length of its source, that of an expansion from the
number of totals.  Both come to whole blocks that tile the source, without a gap at its end and without a
block past it.  The blocks of a reduction are all blocks of the source.  Those of an expansion leave out the
first, and cube `b` combines its block with the total of block `b`, which is never the last and so has no
padding in it.

## Main definitions

* `Cascade.Layout.sourceElems` — the elements of a source that are no padding.
* `Scan.Launched` — the launch of a pass, in exact numbers.
* `Scan.InBlocks`, `Scan.ReducesBlocks`, `Scan.ExpandsBlocks` — what a launch does with the blocks.

## Main results

* `Scan.passes_tile_sources` — the launches of all passes of a checked length.
-/

namespace PrefixScan

open Cascade

/-! ## Sources -/

/-- The number of elements of the buffer reduced into level `k` that are no padding: all elements of the
scanned buffer for level 0, the totals of the level before otherwise. -/
def Cascade.Layout.sourceElems (layout : Layout) : (k : Nat) → Except Fault Size
  | 0 => .ok layout.inputLength
  | k + 1 => do
    let level ← layout.level k
    return level.numElems

namespace Cascade.Layout.Whole

variable {layout : Layout} (h : layout.Whole)
include h

theorem sourceElems_eq {k : Nat} (hk : k ≤ layout.numLevels) :
    ∃ elems, layout.sourceElems k = .ok elems ∧ elems.toNat = layout.count k := by
  cases k with
  | zero => exact ⟨layout.inputLength, rfl, rfl⟩
  | succ k =>
      obtain ⟨level, hlevel, hentry⟩ := level_isOk hk
      exact ⟨level.numElems, by rw [sourceElems, hlevel]; rfl, h.shape.numElems k level hentry⟩

/-- No pass is without blocks: the last level, with a single one, is not expanded. -/
theorem blocks_pos {passes : List Pass} (hpasses : layout.passes = .ok passes) {pass : Pass}
    (hpass : pass ∈ passes) : 0 < layout.blocks pass := by
  rw [h.passes_eq] at hpasses
  cases hpasses
  rw [nested_eq, List.mem_append, List.mem_map, List.mem_map] at hpass
  rcases hpass with ⟨k, _, rfl⟩ | ⟨k, hk, rfl⟩
  · exact h.count_pos (k + 1)
  · have hlevel := (List.mem_range'_1.1 (List.mem_reverse.1 hk)).2
    have hbelow : k + 1 < layout.numLevels := by omega
    have hmany : 1 < layout.count (k + 1) := h.shape.many (k + 1) hbelow
    exact Nat.sub_pos_of_lt hmany

end Cascade.Layout.Whole

namespace Scan

open PrefixScan.Cube

/-- Blocks of consecutive numbers, one after the other, are consecutive numbers. -/
theorem flatMap_range'_block (start size blocks : Nat) :
    ((List.range blocks).flatMap fun b => List.range' (start + b * size) size) =
      List.range' start (blocks * size) := by
  induction blocks with
  | zero => simp
  | succ blocks ih =>
      rw [List.range_succ, List.flatMap_append, ih, List.flatMap_singleton, List.range'_append_1,
        Nat.succ_mul]

variable {settings : Settings} {layout : Layout} {passes : List Pass} {pass : Pass} {grid : Grid}
variable {level : Level} {source elems : Size}

/-! ## Launches in exact numbers -/

/-- The launch of a pass has a cube for every block, and the block of a cube is that of its position behind
the skipped ones. -/
structure Launched (settings : Settings) (layout : Layout) (pass : Pass) (grid : Grid) : Prop where
  grid_eq : Scan.grid settings pass = .ok grid
  settings_eq : grid.settings = settings
  granularity_eq : settings.granularity.toNat = layout.granularity.toNat
  cubeCount : grid.cubeCount = pass.cubeCount
  numCubes : grid.numCubes = layout.blocks pass
  position : ∀ cube < grid.numCubes, (grid.frame cube).position.toNat = cube
  offset : ∀ cube < grid.numCubes, (grid.frame cube).offset.toNat =
    (cube + pass.sweep.skipped) * settings.granularity.toNat

theorem exists_launched (h : layout.Sound) (hpasses : layout.passes = .ok passes)
    (hpass : pass ∈ passes) (hgran : settings.granularity.toNat = layout.granularity.toNat) :
    ∃ grid, Launched settings layout pass grid := by
  have hexact := (addressed_mod h.whole hpasses hpass).exact h.whole h.fits
  obtain ⟨grid, hgrid, hcount, hcells⟩ := hexact.cells settings hgran
  have hcubes : grid.numCubes = pass.cubeCount.toNat := congrArg BitVec.toNat hcount
  refine ⟨grid, hgrid, (grid_within hgrid).1, hgran, hcount, hcubes.trans hexact.count, ?_, ?_⟩
  · intro cube hcube
    exact (hcells cube (hcubes ▸ hcube)).1
  · intro cube hcube
    rw [hgran]
    exact (hcells cube (hcubes ▸ hcube)).2.1

namespace Launched

variable (h : Launched settings layout pass grid)
include h

theorem belongs_source_iff {cube : Nat} (hcube : cube < grid.numCubes) {i : Nat} :
    (grid.frame cube).Belongs (.source i) ↔
      (cube + pass.sweep.skipped) * settings.granularity.toNat ≤ i ∧
        i < (cube + pass.sweep.skipped) * settings.granularity.toNat + settings.granularity.toNat := by
  have hsettings : (grid.frame cube).settings = settings := h.settings_eq
  rw [Frame.Belongs, Frame.granularity, h.offset cube hcube, hsettings]

/-- The block of a cube ends inside of the whole blocks of the source. -/
theorem offset_le {cube : Nat} (hcube : cube < grid.numCubes) :
    (grid.frame cube).offset.toNat + settings.granularity.toNat ≤
      layout.count (pass.level + 1) * settings.granularity.toNat := by
  have hblock : cube + pass.sweep.skipped + 1 ≤ layout.count (pass.level + 1) := by
    have hlt := h.numCubes ▸ hcube
    unfold Layout.blocks at hlt
    omega
  calc (grid.frame cube).offset.toNat + settings.granularity.toNat
      = (cube + pass.sweep.skipped + 1) * settings.granularity.toNat := by
        rw [h.offset cube hcube, Nat.succ_mul]
    _ ≤ layout.count (pass.level + 1) * settings.granularity.toNat := Nat.mul_le_mul_right _ hblock

theorem reaches (hsound : layout.Sound) {cube : Nat} (hcube : cube < grid.numCubes) :
    (grid.frame cube).Reaches (grid.frame cube).granularity .source := by
  have hsame : (grid.frame cube).settings = settings := h.settings_eq
  change (grid.frame cube).offset.toNat + (grid.frame cube).settings.granularity.toNat ≤ 2 ^ 32
  calc (grid.frame cube).offset.toNat + (grid.frame cube).settings.granularity.toNat
      ≤ layout.count (pass.level + 1) * layout.granularity.toNat := by
        rw [hsame, ← h.granularity_eq]
        exact h.offset_le hcube
    _ ≤ layout.inputLength.toNat := hsound.whole.count_mul_le pass.level
    _ ≤ 2 ^ 32 := hsound.fits

/-- Every element behind the skipped blocks is in the block of exactly one cube. -/
theorem existsUnique_belongs (hcount : pass.sweep.skipped ≤ layout.count (pass.level + 1)) {i : Nat}
    (hlow : pass.sweep.skipped * settings.granularity.toNat ≤ i)
    (hhigh : i < layout.count (pass.level + 1) * settings.granularity.toNat) :
    ∃! cube, cube < grid.numCubes ∧ (grid.frame cube).Belongs (.source i) := by
  have hpos : 0 < settings.granularity.toNat :=
    Nat.lt_of_lt_of_le Nat.zero_lt_two settings.two_le_granularity
  have hskipped : pass.sweep.skipped ≤ i / settings.granularity.toNat :=
    (Nat.le_div_iff_mul_le hpos).2 hlow
  have hblock : i / settings.granularity.toNat < layout.count (pass.level + 1) :=
    (Nat.div_lt_iff_lt_mul hpos).2 hhigh
  have hcube : i / settings.granularity.toNat - pass.sweep.skipped < grid.numCubes := by
    rw [h.numCubes, Layout.blocks]
    omega
  refine ⟨i / settings.granularity.toNat - pass.sweep.skipped, ⟨hcube, ?_⟩, ?_⟩
  · rw [h.belongs_source_iff hcube, Nat.sub_add_cancel hskipped]
    exact ⟨Nat.div_mul_le_self i _, Nat.lt_div_mul_add hpos⟩
  · rintro cube ⟨hcube, hbelongs⟩
    obtain ⟨hstart, hend⟩ := (h.belongs_source_iff hcube).1 hbelongs
    rw [← Nat.succ_mul] at hend
    have hquot := (block_of_range hstart hend).1
    omega

end Launched

/-! ## Launches on their blocks -/

/-- The cubes of a launch, of which there are some, work on blocks inside of a source and on totals of a
level, and read and write no other elements of the two buffers. -/
structure InBlocks (grid : Grid) (level : Level) (source : Size) : Prop where
  cubes : 1 ≤ grid.numCubes
  blocks : ∀ cube < grid.numCubes,
    (grid.frame cube).offset.toNat + grid.settings.granularity.toNat ≤ source.toNat
  totals : ∀ cube < grid.numCubes, (grid.frame cube).position.toNat < level.numElems.toNat
  accesses : ∀ cube < grid.numCubes, ∀ plane < grid.numPlanes, ∀ instr ∈ grid.program.code,
    ∀ move ∈ instr.moves (grid.frame cube) plane, ∀ cell ∈ move.target :: move.reads,
      (grid.frame cube).Belongs cell

/-- A reduction has a cube for each total of the level.  Every element of the source is in the block of
exactly one cube, and the totals are written one after the other, each once. -/
structure ReducesBlocks (grid : Grid) (level : Level) (source : Size) : Prop where
  cubes : grid.numCubes = level.numElems.toNat
  blocks : ∀ i < source.toNat,
    ∃! cube, cube < grid.numCubes ∧ (grid.frame cube).Belongs (.source i)
  totals : grid.targets.filterMap Cell.total? = List.range level.numElems.toNat

/-- An expansion leaves out the first block.  Every element of the other blocks that the level has totals of
is in the block of exactly one cube, and no block is left with elements that are no padding.  The elements are
written one after the other, each once, unless the device's count of its iterations wraps and none is.  A
total that is read is that of a block without padding. -/
structure ExpandsBlocks (grid : Grid) (level : Level) (elems : Size) : Prop where
  blocks : ∀ i, grid.settings.granularity.toNat ≤ i →
    i < level.numElems.toNat * grid.settings.granularity.toNat →
      ∃! cube, cube < grid.numCubes ∧ (grid.frame cube).Belongs (.source i)
  writes : grid.targets.filterMap Cell.source? =
    if grid.settings.granularity.toNat + grid.settings.cubeDim.toNat ≤ 2 ^ 32 then
      List.range' grid.settings.granularity.toNat
        ((level.numElems.toNat - 1) * grid.settings.granularity.toNat)
    else []
  covers : elems.toNat ≤ level.numElems.toNat * grid.settings.granularity.toNat
  totals : ∀ k, grid.Accesses (.total k) → (k + 1) * grid.settings.granularity.toNat ≤ elems.toNat

namespace Launched

variable (h : Launched settings layout pass grid)
include h

theorem inBlocks (hsound : layout.Sound) (hpasses : layout.passes = .ok passes)
    (hpass : pass ∈ passes)
    (hlevel : level.numElems.toNat = layout.count (pass.level + 1))
    (hsource : source.toNat = layout.count (pass.level + 1) * layout.granularity.toNat) :
    InBlocks grid level source := by
  obtain ⟨hsettings, hwithin⟩ := grid_within h.grid_eq
  refine ⟨?_, ?_, ?_, ?_⟩
  · rw [h.numCubes]
    exact hsound.whole.blocks_pos hpasses hpass
  · intro cube hcube
    rw [hsettings, hsource, ← h.granularity_eq]
    exact h.offset_le hcube
  · intro cube hcube
    rw [h.position cube hcube, hlevel]
    have hblock := h.numCubes ▸ hcube
    unfold Layout.blocks at hblock
    omega
  · intro cube hcube plane hplane instr hinstr move hmove cell hcell
    have hsame : (grid.frame cube).settings = settings := h.settings_eq
    obtain ⟨unit, _, hmove⟩ := (Instr.mem_moves_iff hplane).1 hmove
    have hinside : instr.Within (grid.frame cube).settings.granularity :=
      hsame ▸ hwithin instr hinstr
    exact (hinside.addresses hmove cell hcell).belongs (h.reaches hsound hcube)

/-- The program of a reduction writes its total once, so the launch writes the totals one after the other. -/
theorem reducesBlocks (hsweep : pass.sweep = .reduce)
    (hlevel : level.numElems.toNat = layout.count (pass.level + 1))
    (hsource : source.toNat = layout.count (pass.level + 1) * layout.granularity.toNat) :
    ReducesBlocks grid level source := by
  have hskipped : pass.sweep.skipped = 0 := by rw [hsweep]; rfl
  have hcubes : grid.numCubes = level.numElems.toNat := by
    rw [h.numCubes, Layout.blocks, hskipped, Nat.sub_zero, hlevel]
  refine ⟨hcubes, ?_, ?_⟩
  · intro i hi
    rw [hsource, ← h.granularity_eq] at hi
    have hlow : pass.sweep.skipped * settings.granularity.toNat ≤ i := by
      rw [hskipped, Nat.zero_mul]
      exact Nat.zero_le i
    exact h.existsUnique_belongs (by omega) hlow hi
  · have hprogram : Program.reduce settings = .ok grid.program := by
      have hgrid := h.grid_eq
      rw [Scan.grid, hsweep] at hgrid
      obtain ⟨program, hprogram, hgrid⟩ := bind_eq_ok.1 hgrid
      cases hgrid
      exact hprogram
    have htotal : ∀ cube ∈ List.range grid.numCubes,
        (grid.program.targets (grid.frame cube)).filterMap Cell.total? = [cube] := by
      intro cube hcube
      have hsame : (grid.frame cube).settings = settings := h.settings_eq
      rw [Program.reduce_totals (hsame.symm ▸ hprogram), h.position cube (List.mem_range.1 hcube)]
    rw [Grid.targets, List.filterMap_flatMap, List.flatMap_congr htotal, ← List.map_eq_flatMap,
      List.map_id', hcubes]

/-- The elements that the cubes of an expansion write follow each other from block to block. -/
theorem expand_writes (hsound : layout.Sound) (hsweep : pass.sweep = .expand) :
    grid.targets.filterMap Cell.source? =
      if settings.granularity.toNat + settings.cubeDim.toNat ≤ 2 ^ 32 then
        List.range' settings.granularity.toNat (grid.numCubes * settings.granularity.toNat)
      else [] := by
  have hskipped : pass.sweep.skipped = 1 := by rw [hsweep]; rfl
  have hprogram : grid.program = Program.expand settings := by
    have hgrid := h.grid_eq
    rw [Scan.grid, hsweep] at hgrid
    cases hgrid
    rfl
  have hcube : ∀ cube ∈ List.range grid.numCubes,
      (grid.program.targets (grid.frame cube)).filterMap Cell.source? =
        if settings.granularity.toNat + settings.cubeDim.toNat ≤ 2 ^ 32 then
          List.range' (settings.granularity.toNat + cube * settings.granularity.toNat)
            settings.granularity.toNat
        else [] := by
    intro cube hcube
    have hlt := List.mem_range.1 hcube
    have hstart : (grid.frame cube).offset.toNat =
        settings.granularity.toNat + cube * settings.granularity.toNat := by
      rw [h.offset cube hlt, hskipped, Nat.succ_mul, Nat.add_comm]
    have hsame : (grid.frame cube).settings = settings := h.settings_eq
    rw [hprogram, ← hstart, ← hsame]
    exact Program.expand_elements (h.reaches hsound hlt)
  rw [Grid.targets, List.filterMap_flatMap, List.flatMap_congr hcube]
  split
  · exact flatMap_range'_block _ _ _
  · exact List.flatMap_eq_nil_iff.2 fun _ _ => rfl

theorem expandsBlocks (hsound : layout.Sound) (hsweep : pass.sweep = .expand)
    (hlevel : level.numElems.toNat = layout.count (pass.level + 1))
    (helems : elems.toNat = layout.count pass.level) :
    ExpandsBlocks grid level elems := by
  have hskipped : pass.sweep.skipped = 1 := by rw [hsweep]; rfl
  have hcubes : grid.numCubes = level.numElems.toNat - 1 := by
    rw [h.numCubes, Layout.blocks, hskipped, hlevel]
  have hsettings := h.settings_eq
  refine ⟨?_, ?_, ?_, ?_⟩
  · intro i hlow hhigh
    rw [hsettings] at hlow hhigh
    rw [hlevel] at hhigh
    have hcount : pass.sweep.skipped ≤ layout.count (pass.level + 1) := by
      rw [hskipped]
      exact hsound.whole.count_pos (pass.level + 1)
    exact h.existsUnique_belongs hcount (by rwa [hskipped, Nat.one_mul]) hhigh
  · rw [hsettings, ← hcubes]
    exact h.expand_writes hsound hsweep
  · rw [hsettings, hlevel, helems, h.granularity_eq]
    exact count_le_mul hsound.whole.granularity_pos pass.level
  · intro k hk
    obtain ⟨cube, hcube, htotal⟩ := exists_addresses h.grid_eq hk
    have hindex : k = cube := Eq.trans htotal (h.position cube hcube)
    have hbehind : k + 1 < layout.count (pass.level + 1) := by omega
    rw [hsettings, helems, h.granularity_eq]
    exact Nat.le_of_lt ((lt_ceil_iff hsound.whole.granularity_pos).1 hbehind)

end Launched

/-- The passes of a checked length that 32-bit positions reach stay inside of their buffers and tile their
sources, under all settings for blocks of this size. -/
theorem passes_tile_sources {length : Size} {granularity : Index}
    (hcheck : checkLength length granularity = .ok ()) (hreach : length.toNat ≤ 2 ^ 32) :
    ∃ layout passes, Layout.ofLength length (granularity.setWidth 64) = .ok layout ∧
      layout.passes = .ok passes ∧
      ∀ pass ∈ passes, ∃ level source elems, layout.level pass.level = .ok level ∧
        layout.sourceLength pass.level = .ok source ∧ layout.sourceElems pass.level = .ok elems ∧
        level.numElems.toNat ≤ level.length.toNat ∧ 1 ≤ pass.cubeCount.toNat ∧
        ∀ settings : Settings, settings.granularity = granularity →
          ∃ grid, Scan.grid settings pass = .ok grid ∧ grid.cubeCount = pass.cubeCount ∧
            InBlocks grid level source ∧
            (pass.sweep = .reduce → ReducesBlocks grid level source) ∧
            (pass.sweep = .expand → ExpandsBlocks grid level elems) := by
  obtain ⟨layout, hlayout, hwhole, rfl, hgran⟩ := Layout.whole_of_checkLength hcheck
  have hsound : layout.Sound :=
    ⟨hwhole.two_le_granularity, hwhole.pos, hwhole.dvd, hreach, hwhole.shape⟩
  have hpasses := hwhole.passes_eq
  refine ⟨layout, _, hlayout, hpasses, fun pass hpass => ?_⟩
  obtain ⟨hlevel, _⟩ :=
    Layout.cubeCount_eq hwhole.granularity_pos hwhole.shape hwhole.pos hpasses hpass
  obtain ⟨level, hentry, hat⟩ := Layout.level_isOk hlevel
  obtain ⟨source, hsource, hlength⟩ := hwhole.sourceLength_eq (Nat.le_of_lt hlevel)
  obtain ⟨elems, helems, hcount⟩ := hwhole.sourceElems_eq (Nat.le_of_lt hlevel)
  have hnum : level.numElems.toNat = layout.count (pass.level + 1) :=
    hwhole.shape.numElems pass.level level hat
  have hroom : level.numElems.toNat ≤ level.length.toNat := by
    rw [hnum, hwhole.shape.length pass.level level hat]
    exact count_le_mul hwhole.granularity_pos (pass.level + 1)
  have hcubes : 1 ≤ pass.cubeCount.toNat := by
    rw [((addressed_mod hwhole hpasses hpass).exact hwhole hreach).count]
    exact hwhole.blocks_pos hpasses hpass
  refine ⟨level, source, elems, hentry, hsource, helems, hroom, hcubes, ?_⟩
  rintro settings rfl
  have hsame : settings.granularity.toNat = layout.granularity.toNat := by
    rw [hgran, toNat_setWidth]
  obtain ⟨grid, hlaunched⟩ := exists_launched hsound hpasses hpass hsame
  exact ⟨grid, hlaunched.grid_eq, hlaunched.cubeCount,
    hlaunched.inBlocks hsound hpasses hpass hnum hlength,
    fun hsweep => hlaunched.reducesBlocks hsweep hnum hlength,
    fun hsweep => hlaunched.expandsBlocks hsound hsweep hnum hcount⟩

/-- Eight elements in blocks of two: the last expansion writes all but the first two. -/
theorem passes_tile_sources_eight :
    checkLength 8 2 = .ok () ∧ (8 : Size).toNat ≤ 2 ^ 32 ∧
      ∃ settings grid, settings.granularity = 2 ∧ Scan.grid settings ⟨.expand, 0, 3⟩ = .ok grid ∧
        grid.targets.filterMap Cell.source? = [2, 3, 4, 5, 6, 7] := by
  let settings : Settings :=
    { granularity := 2, cubeDim := 2, planeDim := 2, two_le_planeDim := by decide,
      cubeDim_pos := by decide, planeDim_dvd_cubeDim := by decide,
      two_le_granularity := by decide, planeDim_dvd_granularity := by decide }
  have hlayout : Layout.ofLength 8 2 = .ok ⟨8, 2, [⟨4, 4⟩, ⟨2, 2⟩, ⟨1, 2⟩]⟩ := by cbv
  obtain ⟨layout, passes, hlayout', hpasses, htiles⟩ :=
    @passes_tile_sources 8 2 (by decide) (by decide)
  obtain rfl := Except.ok.inj (hlayout.symm.trans hlayout')
  have hexpected : (Layout.mk 8 2 [⟨4, 4⟩, ⟨2, 2⟩, ⟨1, 2⟩]).passes =
      .ok [⟨.reduce, 0, 4⟩, ⟨.reduce, 1, 2⟩, ⟨.reduce, 2, 1⟩, ⟨.expand, 1, 1⟩,
        ⟨.expand, 0, 3⟩] := by decide
  obtain rfl := Except.ok.inj (hexpected.symm.trans hpasses)
  obtain ⟨level, source, elems, hlevel, _, _, _, _, hgrids⟩ := htiles ⟨.expand, 0, 3⟩ (by decide)
  obtain rfl : ⟨4, 4⟩ = level := Except.ok.inj hlevel
  obtain ⟨grid, hgrid, _, _, _, hexpands⟩ := hgrids settings rfl
  have hsettings : grid.settings = settings := (grid_within hgrid).1
  have hwrites := (hexpands rfl).writes
  rw [hsettings] at hwrites
  exact ⟨by decide, by decide, settings, grid, rfl, hgrid, hwrites⟩

end Scan

end PrefixScan
