import PrefixScan.Proofs.Cube.Kernel

/-!
# Launches of the sweep kernels

The cubes of a launch run one after the other on shared buffers.  The invariant of a launch says what
the cubes so far made of the blocks they were given and that every other cell is as it was before.

## Main results

* `Grid.run_induction` — what each cube of a launch keeps, the launch keeps.
* `reduceGrid_run`, `expandGrid_run` — the buffers after a reduction and after an expansion.
-/

namespace PrefixScan.Cube

open Bracketing

variable {α : Type} [Inhabited α] {op : Operator α} {fill : α} {settings : Settings}

/-- A cube is told its position. -/
theorem Grid.toNat_position {grid : Grid} {n : Nat} (hn : n < grid.cubeCount.toNat) :
    (grid.frame n).position.toNat = n :=
  Nat.mod_eq_of_lt (Nat.lt_trans hn grid.cubeCount.isLt)

theorem Grid.run_induction {grid : Grid} {buffers : Buffers α} (inv : Nat → Buffers α → Prop)
    (hinit : inv 0 buffers)
    (hstep : ∀ n < grid.cubeCount.toNat, ∀ before, inv n before →
      inv (n + 1) (grid.program.run op (grid.frame n) fill before)) :
    inv grid.cubeCount.toNat (grid.run op fill buffers) := by
  have hprefix : ∀ n ≤ grid.cubeCount.toNat, inv n ((List.range n).foldl
      (fun buffers position => grid.program.run op (grid.frame position) fill buffers)
      buffers) := by
    intro n hn
    induction n with
    | zero => exact hinit
    | succ n ih =>
        rw [List.range_succ, List.foldl_append]
        exact hstep n (by omega) _ (ih (by omega))
  exact hprefix _ (Nat.le_refl _)

/-- No program changes the size of a buffer. -/
theorem Program.run_sizes (op : Operator α) (fill : α) (frame : Frame) (program : Program)
    (buffers : Buffers α) :
    (program.run op frame fill buffers).source.size = buffers.source.size ∧
      (program.run op frame fill buffers).totals.size = buffers.totals.size := by
  let m := program.enter frame.cubeDim fill buffers.source buffers.totals
  constructor
  · exact eq_of_forall_lt_iff fun i => holds_runCode program.code m (.source i)
  · exact eq_of_forall_lt_iff fun k => holds_runCode program.code m (.total k)

theorem Grid.run_sizes (op : Operator α) (fill : α) (grid : Grid) (buffers : Buffers α) :
    (grid.run op fill buffers).source.size = buffers.source.size ∧
      (grid.run op fill buffers).totals.size = buffers.totals.size := by
  apply Grid.run_induction fun _ after => after.source.size = buffers.source.size ∧
    after.totals.size = buffers.totals.size
  · exact ⟨rfl, rfl⟩
  · intro n _ before hbefore
    obtain ⟨hsource, htotals⟩ := grid.program.run_sizes op fill (grid.frame n) before
    exact ⟨hsource.trans hbefore.1, htotals.trans hbefore.2⟩

theorem toNat_ofNat_mul {n : Nat} {size : Index} (hpos : 0 < size.toNat)
    (hfit : (n + 1) * size.toNat ≤ 2 ^ 32) :
    (BitVec.ofNat 32 n).toNat = n ∧ (BitVec.ofNat 32 n * size).toNat = n * size.toNat := by
  have hle : n + 1 ≤ (n + 1) * size.toNat := Nat.le_mul_of_pos_right _ hpos
  have hword : (BitVec.ofNat 32 n).toNat = n := by
    rw [BitVec.toNat_ofNat, Nat.mod_eq_of_lt (by omega)]
  rw [Nat.succ_mul] at hfit
  refine ⟨hword, ?_⟩
  rw [BitVec.toNat_mul, hword, Nat.mod_eq_of_lt (by omega)]

/-! ## Reductions -/

/-- The total of a block of the source. -/
def blockTotal (op : Operator α) (settings : Settings) (source : Nat → α) (block : Nat) : α :=
  (ofCube settings.planeDim.toNat (settings.granularity.toNat - 1)).eval op.combine fun j =>
    source (block * settings.granularity.toNat + j)

/-- The scan of the source by blocks. -/
def blockScanned (op : Operator α) (settings : Settings) (source : Nat → α) (i : Nat) : α :=
  (ofCube settings.planeDim.toNat (i % settings.granularity.toNat)).eval op.combine fun j =>
    source (i / settings.granularity.toNat * settings.granularity.toNat + j)

/-- The buffers after `n` cubes of a reduction. -/
structure BlocksReduced (op : Operator α) (settings : Settings) (buffers : Buffers α) (n : Nat)
    (after : Buffers α) : Prop where
  sourceSize : after.source.size = buffers.source.size
  totalsSize : after.totals.size = buffers.totals.size
  source : ∀ i, after.source.getD i default =
    if i < n * settings.granularity.toNat then
      blockScanned op settings (buffers.source.getD · default) i
    else buffers.source.getD i default
  totals : ∀ k, after.totals.getD k default =
    if k < n ∧ k < buffers.totals.size then
      blockTotal op settings (buffers.source.getD · default) k
    else buffers.totals.getD k default

theorem BlocksReduced.step {buffers before after : Buffers α} {n : Nat} {frame : Frame}
    (hsettings : frame.settings = settings) (hposition : frame.position.toNat = n)
    (hoffset : frame.offset.toNat = n * settings.granularity.toNat)
    (h : BlocksReduced op settings buffers n before) (hcube : Reduced op frame before after) :
    BlocksReduced op settings buffers (n + 1) after := by
  subst hsettings
  have hgran : 2 ≤ frame.granularity := frame.settings.two_le_granularity
  have hsucc : (n + 1) * frame.settings.granularity.toNat =
      n * frame.granularity + frame.granularity := Nat.succ_mul _ _
  replace hoffset : frame.offset.toNat = n * frame.granularity := hoffset
  -- the cubes so far left the block of this one alone
  have hblock : ∀ r, (ofCube frame.planeDim r).eval op.combine
      (fun j => before.source.getD (frame.offset.toNat + j) default) =
      (ofCube frame.planeDim r).eval op.combine
        (fun j => buffers.source.getD (n * frame.granularity + j) default) := by
    intro r
    apply eval_congr
    intro j _
    rw [hoffset, h.source, if_neg (Nat.not_lt.2 (Nat.le_add_right _ _))]
  refine ⟨hcube.sourceSize.trans h.sourceSize, hcube.totalsSize.trans h.totalsSize, ?_, ?_⟩
  · intro i
    by_cases hlow : i < n * frame.granularity
    · rw [hcube.outside i (by omega), h.source i, if_pos hlow,
        if_pos (by rw [hsucc]; omega)]
    · by_cases hhigh : i < (n + 1) * frame.granularity
      · obtain ⟨hdiv, hmod⟩ := block_of_range (Nat.not_lt.1 hlow) hhigh
        have hlt : i % frame.granularity < frame.granularity := Nat.mod_lt i (by omega)
        have hitem : frame.offset.toNat + i % frame.granularity = i := by omega
        rw [if_pos hhigh, ← hitem, hcube.block _ hlt, hblock, hitem, blockScanned, hdiv]
      · rw [if_neg hhigh, hcube.outside i (by rw [hsucc] at hhigh; omega), h.source i,
          if_neg hlow]
  · intro k
    by_cases hk : k = frame.position.toNat
    · subst hk
      by_cases hin : frame.position.toNat < buffers.totals.size
      · rw [if_pos ⟨by omega, hin⟩, hcube.total (h.totalsSize ▸ hin), hblock, hposition]
        rfl
      · have hout : ¬frame.position.toNat < after.totals.size := by
          rw [hcube.totalsSize, h.totalsSize]
          exact hin
        rw [if_neg (by omega)]
        simp [Array.getD_eq_getD_getElem?, Array.getElem?_eq_none (Nat.not_lt.1 hin),
          Array.getElem?_eq_none (Nat.not_lt.1 hout)]
    · have hiff : k < n + 1 ↔ k < n := by omega
      rw [hcube.others k hk, h.totals k]
      simp only [hiff]

/-- A reduction scans every block of the source in place and stores the block totals. -/
theorem reduceGrid_run {program : Program} (hprogram : Program.reduce settings = .ok program)
    (hfit : settings.granularity.toNat + settings.cubeDim.toNat ≤ 2 ^ 32) {cubeCount : Index}
    {buffers : Buffers α}
    (hword : cubeCount.toNat * settings.granularity.toNat ≤ 2 ^ 32)
    (hsize : cubeCount.toNat * settings.granularity.toNat ≤ buffers.source.size) :
    BlocksReduced op settings buffers cubeCount.toNat
      (Grid.run op fill ⟨settings, program, cubeCount, fun position =>
        position * settings.granularity⟩ buffers) := by
  have hgran := settings.two_le_granularity
  apply Grid.run_induction
  · exact ⟨rfl, rfl, fun i => by simp, fun k => by simp⟩
  · intro n hn before hbefore
    have hle : (n + 1) * settings.granularity.toNat ≤
        cubeCount.toNat * settings.granularity.toNat := Nat.mul_le_mul_right _ hn
    obtain ⟨hposition, hoffset⟩ :=
      toNat_ofNat_mul (n := n) (by omega) (Nat.le_trans hle hword)
    have hend : (BitVec.ofNat 32 n * settings.granularity).toNat + settings.granularity.toNat ≤
        cubeCount.toNat * settings.granularity.toNat := by
      rw [hoffset, ← Nat.succ_mul]
      exact hle
    refine hbefore.step rfl hposition hoffset (Program.reduce_run hprogram hfit ?_ ?_)
    · exact Nat.le_trans hend hword
    · rw [hbefore.sourceSize]
      exact Nat.le_trans hend hsize

/-! ## Expansions -/

/-- The buffers after `n` cubes of an expansion. -/
structure BlocksExpanded (op : Operator α) (settings : Settings) (buffers : Buffers α) (n : Nat)
    (after : Buffers α) : Prop where
  sourceSize : after.source.size = buffers.source.size
  totalsSize : after.totals.size = buffers.totals.size
  source : ∀ i, after.source.getD i default =
    if settings.granularity.toNat ≤ i ∧ i < (n + 1) * settings.granularity.toNat then
      op.combine (buffers.totals.getD (i / settings.granularity.toNat - 1) default)
        (buffers.source.getD i default)
    else buffers.source.getD i default
  totals : ∀ k, after.totals.getD k default = buffers.totals.getD k default

theorem BlocksExpanded.step {buffers before after : Buffers α} {n : Nat} {frame : Frame}
    (hsettings : frame.settings = settings) (hposition : frame.position.toNat = n)
    (hoffset : frame.offset.toNat = (n + 1) * settings.granularity.toNat)
    (h : BlocksExpanded op settings buffers n before) (hcube : Expanded op frame before after) :
    BlocksExpanded op settings buffers (n + 1) after := by
  subst hsettings
  have hgran : 2 ≤ frame.granularity := frame.settings.two_le_granularity
  have hsucc : (n + 1 + 1) * frame.settings.granularity.toNat =
      (n + 1) * frame.granularity + frame.granularity := Nat.succ_mul _ _
  have hone : frame.granularity ≤ (n + 1) * frame.granularity :=
    Nat.le_mul_of_pos_left _ (Nat.succ_pos n)
  replace hoffset : frame.offset.toNat = (n + 1) * frame.granularity := hoffset
  refine ⟨hcube.sourceSize.trans h.sourceSize, hcube.totalsSize.trans h.totalsSize, ?_,
    fun k => (hcube.totals k).trans (h.totals k)⟩
  intro i
  by_cases hlow : i < (n + 1) * frame.granularity
  · have hiff : i < (n + 1 + 1) * frame.settings.granularity.toNat ↔
        i < (n + 1) * frame.settings.granularity.toNat := by
      rw [hsucc]
      exact ⟨fun _ => hlow, fun _ => by omega⟩
    rw [hcube.outside i (by omega), h.source i]
    simp only [hiff]
  · have hbefore : before.source.getD i default = buffers.source.getD i default := by
      rw [h.source i, if_neg fun hin => hlow hin.2]
    by_cases hhigh : i < (n + 1 + 1) * frame.granularity
    · obtain ⟨hdiv, hmod⟩ := block_of_range (Nat.not_lt.1 hlow) hhigh
      have hlt : i % frame.granularity < frame.granularity := Nat.mod_lt i (by omega)
      have hitem : frame.offset.toNat + i % frame.granularity = i := by omega
      have hcombined := hcube.block _ hlt
      rw [hitem, hbefore, h.totals, hposition] at hcombined
      rw [if_pos ⟨Nat.le_trans hone (Nat.not_lt.1 hlow), hhigh⟩, hdiv, Nat.add_sub_cancel, hcombined]
    · rw [if_neg fun hin => hhigh hin.2, ← hbefore]
      exact hcube.outside i (by rw [hsucc] at hhigh; omega)

/-- An expansion combines every block of the source but the first with the total before it. -/
theorem expandGrid_run
    (hfit : settings.granularity.toNat + settings.cubeDim.toNat ≤ 2 ^ 32) {cubeCount : Index}
    {buffers : Buffers α}
    (hword : (cubeCount.toNat + 1) * settings.granularity.toNat ≤ 2 ^ 32)
    (hsize : (cubeCount.toNat + 1) * settings.granularity.toNat ≤ buffers.source.size) :
    BlocksExpanded op settings buffers cubeCount.toNat
      (Grid.run op fill ⟨settings, Program.expand settings, cubeCount, fun position =>
        (position + 1) * settings.granularity⟩ buffers) := by
  have hgran := settings.two_le_granularity
  apply Grid.run_induction
  · exact ⟨rfl, rfl, fun i => by rw [if_neg (by omega)], fun k => rfl⟩
  · intro n hn before hbefore
    have hle : (n + 1 + 1) * settings.granularity.toNat ≤
        (cubeCount.toNat + 1) * settings.granularity.toNat :=
      Nat.mul_le_mul_right _ (Nat.succ_le_succ hn)
    obtain ⟨_, hoffset⟩ := toNat_ofNat_mul (n := n + 1) (by omega) (Nat.le_trans hle hword)
    rw [BitVec.ofNat_add] at hoffset
    replace hoffset : ((BitVec.ofNat 32 n + 1) * settings.granularity).toNat =
      (n + 1) * settings.granularity.toNat := hoffset
    have hend : ((BitVec.ofNat 32 n + 1) * settings.granularity).toNat +
        settings.granularity.toNat ≤ (cubeCount.toNat + 1) * settings.granularity.toNat := by
      rw [hoffset, ← Nat.succ_mul]
      exact hle
    refine hbefore.step rfl (Grid.toNat_position hn) hoffset (Program.expand_run hfit ?_ ?_)
    · exact Nat.le_trans hend hword
    · rw [hbefore.sourceSize]
      exact Nat.le_trans hend hsize

end PrefixScan.Cube
