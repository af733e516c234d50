import PrefixScan.Proofs.Cube.Blocks
import PrefixScan.Proofs.Scan.Addressing
import PrefixScan.Proofs.Scan.Pass

/-!
# Scans out of order

The passes of a scan run in the order of their submission.  Within a pass nothing orders the cubes.  The
cubes of a pass are on blocks of their own as long as 32-bit positions reach the buffer, so all orders of
the cubes and all schedules of their planes end with the same buffers, pass after pass.

## Main definitions

* `Scan.PassEnds` — the stores that a pass can end with.
* `Scan.Ends` — the stores that a sequence of passes can end with.

## Main results

* `Scan.grid_separate` — the cubes of a pass are separate.
* `Scan.passes_scheduleFree` — no pass, and so no scan, depends on the order of the cubes.
-/

namespace PrefixScan.Scan

open PrefixScan.Cube Cascade

variable {settings : Settings} {pass : Pass} {grid : Grid}

/-! ## The cubes of a pass -/

/-- The kernels of both sweeps keep to the block of their cube. -/
theorem grid_within (hgrid : Scan.grid settings pass = .ok grid) :
    grid.settings = settings ∧ ∀ instr ∈ grid.program.code, instr.Within settings.granularity := by
  obtain ⟨sweep, level, cubeCount⟩ := pass
  cases sweep with
  | reduce =>
      obtain ⟨program, hprogram, hgrid⟩ := bind_eq_ok.1 hgrid
      cases hgrid
      exact ⟨rfl, Program.reduce_within hprogram⟩
  | expand =>
      cases hgrid
      exact ⟨rfl, Program.expand_within settings⟩

/-- The barriers in the kernels of both sweeps suffice. -/
theorem grid_footprints (hgrid : Scan.grid settings pass = .ok grid)
    (hfit : settings.granularity.toNat + settings.cubeDim.toNat ≤ 2 ^ 32) {frame : Frame}
    (hframe : frame.settings = settings) : Footprints frame grid.program.code := by
  subst hframe
  obtain ⟨sweep, level, cubeCount⟩ := pass
  cases sweep with
  | reduce =>
      obtain ⟨program, hprogram, hgrid⟩ := bind_eq_ok.1 hgrid
      cases hgrid
      exact (Program.reduce_phased hprogram hfit).footprints
  | expand =>
      cases hgrid
      exact (Program.expand_phased frame hfit).footprints

/-- The cubes of a pass are separate. -/
theorem grid_separate {layout : Layout} (h : layout.Sound)
    (hgran : layout.granularity.toNat = settings.granularity.toNat)
    (hfit : settings.granularity.toNat + settings.cubeDim.toNat ≤ 2 ^ 32) {passes : List Pass}
    (hpasses : layout.passes = .ok passes) (hpass : pass ∈ passes) :
    ∃ grid, Scan.grid settings pass = .ok grid ∧ grid.Separate := by
  have hexact := (addressed_mod h.whole hpasses hpass).exact h.whole h.fits
  obtain ⟨grid, hgrid, hcount, hcells⟩ := hexact.cells settings hgran.symm
  obtain ⟨hsettings, hwithin⟩ := grid_within hgrid
  have hcubes : grid.numCubes = layout.blocks pass := by rw [Grid.numCubes, hcount, hexact.count]; rfl
  rw [hgran, ← hsettings] at hcells
  have hoffset : ∀ cube < grid.numCubes, (grid.frame cube).offset.toNat =
      (cube + pass.sweep.skipped) * grid.settings.granularity.toNat := fun cube hcube =>
    (hcells cube (hcount ▸ hcube)).2.1
  refine ⟨grid, hgrid, Grid.separate_of_blocks hoffset ?_ ?_ ?_⟩
  · intro cube hcube
    rw [hsettings, ← hgran]
    exact Nat.le_trans (h.whole.blocks_mul_le pass (hcubes ▸ hcube)) h.fits
  · rwa [hsettings]
  · exact fun cube => grid_footprints hgrid hfit hsettings

/-! ## Passes -/

section Passes

variable {α : Type} [Inhabited α]

/-- The buffers of a pass over a level. -/
def Store.buffers (store : Store α) (level : Nat) : Buffers α :=
  ⟨store.source level, store.levels.getD level #[]⟩

/-- The stores that a pass can end with: its cubes ran one after the other, in some order, or they and
their planes went on independently of each other until all were done. -/
inductive PassEnds (op : Operator α) (fill : α) (settings : Settings) (pass : Pass)
    (store : Store α) : Store α → Prop
  | inOrder {grid : Grid} (hgrid : Scan.grid settings pass = .ok grid)
      {order : List (Fin grid.numCubes)} (horder : order.Perm (List.finRange grid.numCubes)) :
      PassEnds op fill settings pass store
        (store.update pass.level (grid.runInOrder op fill order (store.buffers pass.level)))
  | interleaved {grid : Grid} (hgrid : Scan.grid settings pass = .ok grid)
      {state : Schedule.State Move (LaunchMemory α grid.numCubes)
        (Fin grid.numCubes × Fin grid.numPlanes)}
      (hreach : (cubes op grid).Reaches
        ((cubes op grid).start (grid.enter fill (store.buffers pass.level))) state)
      (hdone : state.Done) :
      PassEnds op fill settings pass store (store.update pass.level state.memory.buffers)

/-- The stores that passes can end with, each pass on what the passes before it left behind. -/
inductive Ends (op : Operator α) (fill : α) (settings : Settings) :
    List Pass → Store α → Store α → Prop
  | nil (store : Store α) : Ends op fill settings [] store store
  | cons {pass : Pass} {passes : List Pass} {store between after : Store α}
      (hpass : PassEnds op fill settings pass store between)
      (hrest : Ends op fill settings passes between after) :
      Ends op fill settings (pass :: passes) store after

variable {op : Operator α} {fill : α} {store after : Store α}

theorem runPass_result (hgrid : Scan.grid settings pass = .ok grid) :
    (runPass op fill settings pass store).result =
      .ok (store.update pass.level (grid.run op fill (store.buffers pass.level))) := by
  rw [runPass, hgrid]
  rfl

/-- A pass whose launch does not depend on the schedule ends like its cubes in the order of their
positions. -/
theorem passEnds_iff (hgrid : Scan.grid settings pass = .ok grid) (hfree : grid.ScheduleFree) :
    PassEnds op fill settings pass store after ↔
      (runPass op fill settings pass store).result = .ok after := by
  have hsame : ∀ {grid' : Grid}, Scan.grid settings pass = .ok grid' → grid = grid' := fun h =>
    Except.ok.inj (hgrid.symm.trans h)
  obtain ⟨horders, hschedules⟩ := hfree op fill (store.buffers pass.level)
  rw [runPass_result hgrid]
  constructor
  · intro h
    cases h with
    | inOrder hgrid' horder =>
        obtain rfl := hsame hgrid'
        rw [horders _ horder]
    | interleaved hgrid' hreach hdone =>
        obtain rfl := hsame hgrid'
        rw [(hschedules _ hreach).2 hdone]
  · intro h
    rw [← Except.ok.inj h, ← horders _ (List.Perm.refl _)]
    exact .inOrder hgrid (List.Perm.refl _)

/-- Passes whose launches do not depend on the schedule end like one after the other, with their cubes in
the order of their positions. -/
theorem ends_iff {passes : List Pass}
    (hfree : ∀ pass ∈ passes, ∃ grid, Scan.grid settings pass = .ok grid ∧ grid.ScheduleFree) :
    Ends op fill settings passes store after ↔
      passes.foldlM (fun store pass => (runPass op fill settings pass store).result) store =
        .ok after := by
  induction passes generalizing store with
  | nil =>
      constructor
      · intro h
        cases h
        rfl
      · intro h
        cases h
        exact .nil _
  | cons pass passes ih =>
      obtain ⟨grid, hgrid, hgridFree⟩ := hfree pass List.mem_cons_self
      have hrest := fun other hother => hfree other (List.mem_cons_of_mem pass hother)
      rw [List.foldlM_cons, bind_eq_ok]
      constructor
      · intro h
        cases h with
        | cons hpass hends =>
            exact ⟨_, (passEnds_iff hgrid hgridFree).1 hpass, (ih hrest).1 hends⟩
      · rintro ⟨between, hpass, hends⟩
        exact .cons ((passEnds_iff hgrid hgridFree).2 hpass) ((ih hrest).2 hends)

theorem passes_isOk {passes : List Pass}
    (hgrids : ∀ pass ∈ passes, ∃ grid, Scan.grid settings pass = .ok grid) :
    ∃ after, passes.foldlM (fun store pass => (runPass op fill settings pass store).result) store =
      .ok after := by
  induction passes generalizing store with
  | nil => exact ⟨store, rfl⟩
  | cons pass passes ih =>
      obtain ⟨grid, hgrid⟩ := hgrids pass List.mem_cons_self
      obtain ⟨after, hafter⟩ := @ih (store.update pass.level (grid.run op fill (store.buffers
        pass.level))) fun other hother => hgrids other (List.mem_cons_of_mem pass hother)
      exact ⟨after, by rw [List.foldlM_cons, runPass_result hgrid]; exact hafter⟩

end Passes

/-! ## Scans -/

/-- The cubes of every pass of an accepted scan can run in any order, or go on independently of each
other, on whatever the buffers hold.  So the scan ends with the same data and the same cascade for every
choice of order and schedule in each pass, and there is no schedule that gets stuck. -/
theorem passes_scheduleFree {device : Device} {config : Config} {length : Size} {layout : Layout}
    (haccept : accept device config length layout = .ok settings) (hbuilt : layout.Built)
    (hreach : length.toNat ≤ 2 ^ 32)
    (hfits : config.granularity.toNat + config.cubeDim.toNat ≤ 2 ^ 32) :
    ∃ passes, layout.passes = .ok passes ∧
      (∀ pass ∈ passes, ∃ grid, Scan.grid settings pass = .ok grid ∧ grid.ScheduleFree) ∧
      ∀ {α : Type} [Inhabited α] (op : Operator α) (fill : α) (store : Store α),
        ∃ submission after,
          hierarchical op fill device config length layout store = .ok submission ∧
          submission.result = .ok after ∧
          ∀ after', Ends op fill settings passes store after' ↔ after' = after := by
  have haccepted := accepted_of_accept haccept
  have hsound := haccepted.sound hbuilt hreach
  have hfit : settings.granularity.toNat + settings.cubeDim.toNat ≤ 2 ^ 32 := by
    rwa [haccepted.granularity, haccepted.cubeDim]
  have hpasses := hsound.whole.passes_eq
  have hfree : ∀ pass ∈ layout.nested layout.numLevels 0,
      ∃ grid, Scan.grid settings pass = .ok grid ∧ grid.ScheduleFree := by
    intro pass hpass
    obtain ⟨grid, hgrid, hseparate⟩ :=
      grid_separate hsound haccepted.granularity_eq hfit hpasses hpass
    exact ⟨grid, hgrid, hseparate.scheduleFree⟩
  refine ⟨_, hpasses, hfree, ?_⟩
  intro α _ op fill store
  obtain ⟨after, hafter⟩ := @passes_isOk settings α _ op fill store _ fun pass hpass =>
    (hfree pass hpass).imp fun _ h => h.1
  have hresult : (launch op fill device ⟨config.profiling⟩ settings length layout store).result =
      .ok after := by
    rw [launch, hpasses]
    exact (submitPasses_result _).trans hafter
  refine ⟨_, after, hierarchical_of_accept op fill haccept store, hresult, ?_⟩
  intro after'
  rw [ends_iff hfree, hafter, Except.ok.injEq, eq_comm]

/-- Running sums of eight numbers in blocks of two: in all, eleven cubes in five passes. -/
theorem passes_scheduleFree_eight :
    ∃ settings passes,
      accept { planeMin := 2, planeMax := 2 } { granularity := 2, cubeDim := 2 } 8
        ⟨8, 2, [⟨4, 4⟩, ⟨2, 2⟩, ⟨1, 2⟩]⟩ = .ok settings ∧
      (Layout.mk 8 2 [⟨4, 4⟩, ⟨2, 2⟩, ⟨1, 2⟩]).Built ∧ (8 : Size).toNat ≤ 2 ^ 32 ∧
      (2 : Index).toNat + (2 : Index).toNat ≤ 2 ^ 32 ∧
      (Layout.mk 8 2 [⟨4, 4⟩, ⟨2, 2⟩, ⟨1, 2⟩]).passes = .ok passes ∧
      passes.map (fun pass => pass.cubeCount) = [4, 2, 1, 1, 3] ∧
      ∃ after : Store (BitVec 32), ∀ after',
        Ends Operator.sum 9 settings passes
          ⟨#[1, 2, 3, 4, 5, 6, 7, 8], #[#[0, 0, 0, 0], #[0, 0], #[0, 0]]⟩ after' ↔
          after' = after := by
  obtain ⟨settings, haccept⟩ : ∃ settings, accept { planeMin := 2, planeMax := 2 }
      { granularity := 2, cubeDim := 2 } 8 ⟨8, 2, [⟨4, 4⟩, ⟨2, 2⟩, ⟨1, 2⟩]⟩ = .ok settings :=
    ⟨_, rfl⟩
  have hbuilt : (Layout.mk 8 2 [⟨4, 4⟩, ⟨2, 2⟩, ⟨1, 2⟩]).Built := by
    unfold Layout.Built
    cbv
  obtain ⟨passes, hpasses, _, hends⟩ :=
    passes_scheduleFree haccept hbuilt (by decide) (by decide)
  obtain ⟨_, after, _, _, hafter⟩ := hends Operator.sum (9 : BitVec 32)
    ⟨#[1, 2, 3, 4, 5, 6, 7, 8], #[#[0, 0, 0, 0], #[0, 0], #[0, 0]]⟩
  refine ⟨settings, passes, haccept, hbuilt, by decide, by decide, hpasses, ?_, after, hafter⟩
  cases hpasses
  rfl

end PrefixScan.Scan
