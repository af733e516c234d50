import PrefixScan.Proofs.Cube.Grid
import PrefixScan.Proofs.Scan.Accept

/-!
# Addressing in words

The host counts blocks in 64 bits and cuts the count to 32 for the launch.  The cubes compute from there
in 32-bit arithmetic: where their block starts, and where its items are.  Cutting respects sums and
products, so each of these numbers is the one it stands for, cut once.  No number of a pass is lost
exactly if 32-bit positions reach all of the buffer, which no check asks for.

## Main definitions

* `Cascade.Layout.blocks` — the number of blocks that a pass has to process.
* `Scan.Addressed` — the words that a pass computes, in terms of the exact numbers.

## Main results

* `Scan.grid_isOk` — every pass has a launch.
* `Scan.passes_addressed_iff` — when the words of all passes are the exact numbers.
-/

namespace PrefixScan

open Cascade

/-! ## Blocks -/

/-- The blocks of the source that a sweep leaves out: the first is never expanded. -/
def Cascade.Sweep.skipped : Sweep → Nat
  | .reduce => 0
  | .expand => 1

/-- The number of blocks that a pass has to process: all blocks of its source but the skipped. -/
def Cascade.Layout.blocks (layout : Layout) (pass : Pass) : Nat :=
  layout.count (pass.level + 1) - pass.sweep.skipped

/-! ### Passes over any length -/

section Passes

variable {layout : Layout} (hpos : 0 < layout.granularity.toNat)
  (h : Shape layout.granularity.toNat layout.inputLength.toNat layout.levels)
  (hn : 0 < layout.inputLength.toNat)
include hpos h hn

/-- Every pass is over an existing level, and its cubes are the blocks to process, counted in a word. -/
theorem Cascade.Layout.cubeCount_eq {passes : List Pass} (hpasses : layout.passes = .ok passes)
    {pass : Pass} (hpass : pass ∈ passes) :
    pass.level < layout.numLevels ∧ pass.cubeCount = BitVec.ofNat 32 (layout.blocks pass) := by
  rw [passes_eq_nested hpos h hn] at hpasses
  cases hpasses
  rw [nested_eq, List.mem_append, List.mem_map, List.mem_map] at hpass
  rcases hpass with ⟨k, hk, rfl⟩ | ⟨k, hk, rfl⟩
  · have hlevel := (List.mem_range'_1.1 hk).2
    exact ⟨by simpa [reduction] using hlevel, rfl⟩
  · have hlevel := (List.mem_range'_1.1 (List.mem_reverse.1 hk)).2
    exact ⟨show k < layout.numLevels by omega, rfl⟩

/-- There are no more cubes than blocks to process, however many are cut off. -/
theorem Cascade.Layout.cubeCount_le {passes : List Pass} (hpasses : layout.passes = .ok passes)
    {pass : Pass} (hpass : pass ∈ passes) :
    pass.level < layout.numLevels ∧
      pass.cubeCount.toNat + pass.sweep.skipped ≤ layout.count (pass.level + 1) := by
  obtain ⟨hlevel, hcount⟩ := cubeCount_eq hpos h hn hpasses hpass
  have hmod : pass.cubeCount.toNat ≤ layout.count (pass.level + 1) - pass.sweep.skipped := by
    rw [hcount, BitVec.toNat_ofNat]
    exact Nat.mod_le _ _
  have hblocks : 0 < layout.count (pass.level + 1) := count_pos hpos hn (pass.level + 1)
  have hskipped : pass.sweep.skipped ≤ 1 := by cases pass.sweep <;> decide
  exact ⟨hlevel, by omega⟩

end Passes

namespace Cascade.Layout.Whole

variable {layout : Layout} (h : layout.Whole)
include h

/-- The first pass reduces the buffer. -/
theorem reduction_zero_mem {passes : List Pass} (hpasses : layout.passes = .ok passes) :
    layout.reduction 0 ∈ passes := by
  have hlevels := h.numLevels_pos
  rw [h.passes_eq] at hpasses
  cases hpasses
  rw [nested_eq, List.mem_append, List.mem_map]
  exact .inl ⟨0, List.mem_range'_1.2 ⟨Nat.le_refl 0, by omega⟩, rfl⟩

/-- The blocks of a pass lie in the buffer, behind those it skips. -/
theorem blocks_mul_le (pass : Pass) {position : Nat} (hposition : position < layout.blocks pass) :
    (position + pass.sweep.skipped + 1) * layout.granularity.toNat ≤ layout.inputLength.toNat := by
  refine Nat.le_trans (Nat.mul_le_mul_right _ ?_) (h.count_mul_le pass.level)
  unfold blocks at hposition
  omega

end Cascade.Layout.Whole

/-- A length that passes the check has a layout, and all its blocks are whole. -/
theorem Cascade.Layout.whole_of_checkLength {length : Size} {granularity : Index}
    (hcheck : checkLength length granularity = .ok ()) :
    ∃ layout, Layout.ofLength length (granularity.setWidth 64) = .ok layout ∧ layout.Whole ∧
      layout.inputLength = length ∧ layout.granularity = granularity.setWidth 64 := by
  obtain ⟨hpos, htwo, hdvd⟩ := checkLength_eq_ok hcheck
  have hgran : 2 ≤ (granularity.setWidth 64).toNat := by rwa [toNat_setWidth]
  obtain ⟨layout, hlayout⟩ := Layout.ofLength_isOk hgran length
  obtain ⟨hinput, hgranularity⟩ := Layout.ofLength_fields hlayout
  refine ⟨layout, hlayout, ⟨?_, ?_, ?_, ?_⟩, hinput, hgranularity⟩
  · rwa [hgranularity]
  · rwa [hinput]
  · rwa [hinput, hgranularity, toNat_setWidth]
  · rw [hinput, hgranularity]
    exact Layout.shape_of_ofLength hgran hlayout

namespace Scan

open PrefixScan.Cube

/-! ## Launches -/

/-- Every pass has a launch, with the cubes of the pass, each on the block of its position behind the
skipped ones. -/
theorem grid_isOk (settings : Settings) (pass : Pass) :
    ∃ grid, Scan.grid settings pass = .ok grid ∧ grid.settings = settings ∧
      grid.cubeCount = pass.cubeCount ∧ ∀ position,
        grid.offset position =
          (position + BitVec.ofNat 32 pass.sweep.skipped) * settings.granularity := by
  obtain ⟨sweep, level, cubeCount⟩ := pass
  cases sweep with
  | reduce =>
      obtain ⟨program, hprogram⟩ := Program.reduce_isOk settings
      have hgrid : Scan.grid settings ⟨.reduce, level, cubeCount⟩ =
          .ok ⟨settings, program, cubeCount, fun position => position * settings.granularity⟩ := by
        rw [grid, hprogram]
        rfl
      exact ⟨_, hgrid, rfl, rfl, fun position =>
        congrArg (· * settings.granularity) (BitVec.add_zero position).symm⟩
  | expand => exact ⟨_, rfl, rfl, rfl, fun _ => rfl⟩

/-- The words that a pass computes, in terms of the numbers that they stand for: the cubes are the
blocks to process, and under any settings for blocks of this size the cube at a position is told its
position and addresses the items of its block.  `word` takes a number to what is computed in its place. -/
structure Addressed (word : Nat → Nat) (layout : Layout) (pass : Pass) : Prop where
  count : pass.cubeCount.toNat = word (layout.blocks pass)
  cells : ∀ settings : Settings, settings.granularity.toNat = layout.granularity.toNat →
    ∃ grid, Scan.grid settings pass = .ok grid ∧ grid.cubeCount = pass.cubeCount ∧
      ∀ position < pass.cubeCount.toNat,
        let frame := grid.frame position
        let start := (position + pass.sweep.skipped) * layout.granularity.toNat
        frame.position.toNat = position ∧ frame.offset.toNat = word start ∧
          ∀ item : Index, item.toNat < layout.granularity.toNat →
            frame.cell item .source = .source (word (start + item.toNat))

/-- Every number of a pass is cut to a word, once. -/
theorem addressed_mod {layout : Layout} (h : layout.Whole) {passes : List Pass}
    (hpasses : layout.passes = .ok passes) {pass : Pass} (hpass : pass ∈ passes) :
    Addressed (· % 2 ^ 32) layout pass := by
  refine ⟨?_, ?_⟩
  · rw [(Layout.cubeCount_eq h.granularity_pos h.shape h.pos hpasses hpass).2, BitVec.toNat_ofNat]
  · intro settings hgran
    obtain ⟨grid, hgrid, _, hcount, hoffset⟩ := grid_isOk settings pass
    refine ⟨grid, hgrid, hcount, ?_⟩
    intro position hposition frame start
    have hframe : frame.offset = BitVec.ofNat 32 start := by
      show grid.offset (BitVec.ofNat 32 position) = _
      rw [hoffset, ← BitVec.ofNat_add, BitVec.ofNat_mul, ← hgran, BitVec.ofNat_toNat,
        BitVec.setWidth_eq]
    refine ⟨Grid.toNat_position (hcount ▸ hposition), ?_, ?_⟩
    · rw [hframe, BitVec.toNat_ofNat]
    · intro item _
      have hitem : frame.offset + item = BitVec.ofNat 32 (start + item.toNat) := by
        rw [hframe, BitVec.ofNat_add, BitVec.ofNat_toNat, BitVec.setWidth_eq]
      rw [Frame.cell, hitem, BitVec.toNat_ofNat]

/-- If 32-bit positions reach the buffer, there is nothing to cut. -/
theorem Addressed.exact {layout : Layout} (h : layout.Whole) {pass : Pass}
    (hfits : layout.inputLength.toNat ≤ 2 ^ 32) (hpass : Addressed (· % 2 ^ 32) layout pass) :
    Addressed id layout pass := by
  have htwo := h.two_le_granularity
  have hblocks : layout.blocks pass < 2 ^ 32 := by
    have hle := h.count_mul_le pass.level
    have hdouble : layout.count (pass.level + 1) * 2 ≤
        layout.count (pass.level + 1) * layout.granularity.toNat := Nat.mul_le_mul_left _ htwo
    unfold Layout.blocks
    omega
  have hcount : pass.cubeCount.toNat = layout.blocks pass :=
    hpass.count.trans (Nat.mod_eq_of_lt hblocks)
  refine ⟨hcount, ?_⟩
  intro settings hgran
  obtain ⟨grid, hgrid, hcubes, hcells⟩ := hpass.cells settings hgran
  refine ⟨grid, hgrid, hcubes, ?_⟩
  intro position hposition
  have hend := h.blocks_mul_le pass (hcount ▸ hposition)
  rw [Nat.succ_mul] at hend
  obtain ⟨hpos, hoffset, hitems⟩ := hcells position hposition
  refine ⟨hpos, hoffset.trans (Nat.mod_eq_of_lt (by omega)), ?_⟩
  intro item hitem
  rw [hitems item hitem, Nat.mod_eq_of_lt (by omega)]
  rfl

/-- The last element of the buffer is addressed by the reduction of the buffer, so its position is a
word. -/
theorem Addressed.inputLength_le {layout : Layout} (h : layout.Whole) {granularity : Index}
    (hgran : granularity.toNat = layout.granularity.toNat)
    (hpass : Addressed id layout (layout.reduction 0)) : layout.inputLength.toNat ≤ 2 ^ 32 := by
  have htwo : 2 ≤ granularity.toNat := hgran ▸ h.two_le_granularity
  have hblocks : 0 < layout.count 1 := h.count_pos 1
  -- one plane per block is valid for all granularities
  let settings : Settings := ⟨granularity, granularity, granularity, htwo, by omega,
    Nat.dvd_refl _, htwo, Nat.dvd_refl _⟩
  obtain ⟨grid, _, _, hcells⟩ := hpass.cells settings hgran
  have hlast : layout.count 1 - 1 < (layout.reduction 0).cubeCount.toNat := by
    rw [hpass.count]
    show layout.count 1 - 1 < layout.count 1 - 0
    omega
  have hitem := Word.toNat_sub_one (Nat.zero_lt_of_lt htwo)
  have hcell := (hcells _ hlast).2.2 (granularity - 1) (by omega)
  have hword := ((grid.frame (layout.count 1 - 1)).offset + (granularity - 1)).isLt
  have hsplit : (layout.count 1 - 1 + 1) * layout.granularity.toNat = layout.inputLength.toNat := by
    rw [Nat.sub_add_cancel hblocks]
    exact h.count_one_mul
  rw [Frame.cell, Cell.source.injEq, hitem] at hcell
  rw [hcell] at hword
  simp only [Layout.reduction, Sweep.skipped, id_eq, Nat.add_zero] at hword
  rw [Nat.succ_mul] at hsplit
  omega

/-- All passes over a checked length compute with the exact numbers cut to words, and so with the exact
numbers if and only if 32-bit positions reach the buffer. -/
theorem passes_addressed_iff {length : Size} {granularity : Index}
    (hcheck : checkLength length granularity = .ok ()) :
    ∃ layout passes, Layout.ofLength length (granularity.setWidth 64) = .ok layout ∧
      layout.passes = .ok passes ∧
      (∀ pass ∈ passes, Addressed (· % 2 ^ 32) layout pass) ∧
      ((∀ pass ∈ passes, Addressed id layout pass) ↔ length.toNat ≤ 2 ^ 32) := by
  obtain ⟨layout, hlayout, hwhole, rfl, hgran⟩ := Layout.whole_of_checkLength hcheck
  have hpasses := hwhole.passes_eq
  refine ⟨layout, _, hlayout, hpasses, fun pass => addressed_mod hwhole hpasses, ?_, ?_⟩
  · intro hexact
    exact (hexact _ (hwhole.reduction_zero_mem hpasses)).inputLength_le hwhole
      (by rw [hgran, toNat_setWidth])
  · intro hfits pass hpass
    exact (addressed_mod hwhole hpasses hpass).exact hwhole hfits

/-- Eight elements in blocks of two. -/
theorem passes_addressed_iff_eight : checkLength 8 2 = .ok () ∧ (8 : Size).toNat ≤ 2 ^ 32 ∧
    ∃ layout passes, Layout.ofLength 8 2 = .ok layout ∧ layout.passes = .ok passes ∧
      ∀ pass ∈ passes, Addressed id layout pass := by
  obtain ⟨layout, passes, hlayout, hpasses, _, hexact⟩ :=
    @passes_addressed_iff 8 2 (by decide)
  exact ⟨by decide, by decide, layout, passes, hlayout, hpasses, hexact.2 (by decide)⟩

/-- As many blocks as there are words: the buffer has that many, but no cube is launched to reduce them. -/
theorem no_cube_past_word_space :
    checkLength 0x1000000000000 0x10000 = .ok () ∧
      ∃ layout, Layout.ofLength 0x1000000000000 0x10000 = .ok layout ∧
        layout.blocks ⟨.reduce, 0, 0⟩ = 2 ^ 32 ∧
        layout.passes = .ok [⟨.reduce, 0, 0⟩, ⟨.reduce, 1, 65536⟩, ⟨.reduce, 2, 1⟩,
          ⟨.expand, 1, 65535⟩, ⟨.expand, 0, 4294967295⟩] := by
  refine ⟨by decide, ⟨0x1000000000000, 0x10000, [⟨0x100000000, 0x100000000⟩, ⟨0x10000, 0x10000⟩,
    ⟨1, 0x10000⟩]⟩, by cbv, by decide, by decide⟩

end Scan

end PrefixScan
