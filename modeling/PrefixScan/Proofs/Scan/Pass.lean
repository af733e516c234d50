import PrefixScan.Scan
import PrefixScan.Proofs.Submission
import PrefixScan.Proofs.Cube.Grid

/-!
# Passes over a store

A pass over level `k` changes two buffers of the store, the source of the level and its
totals, which are buffers `k` and `k + 1` when the data counts as buffer 0.

## Main results

* `Scan.submitPasses_result` — the passes of a submission, one after the other.
* `Scan.reduction_result`, `Scan.expansion_result` — the store after a pass.
-/

namespace PrefixScan

namespace Scan

open PrefixScan.Cube Cascade

variable {α : Type} [Inhabited α] {op : Operator α} {fill : α} {settings : Settings}
variable {store : Store α}

theorem submitPasses_result {device : Device} {profiler : Profiler} (passes : List Pass) :
    (submitPasses op fill device profiler settings passes store).result =
      passes.foldlM (fun store pass => (runPass op fill settings pass store).result) store := by
  induction passes generalizing store with
  | nil => rfl
  | cons pass passes ih =>
      rw [submitPasses, Submission.result_bind, Submission.result_emit, List.foldlM_cons]
      show (Submission.result _) = _
      rw [Submission.result_bind, Profiler.submit_result]
      simp only [ih]

/-! ## Buffers of a store -/

omit [Inhabited α] in
/-- A pass over level `k` replaces buffers `k` and `k + 1`. -/
theorem Store.source_update {k : Nat} (hk : k < store.levels.size) (buffers : Buffers α)
    (j : Nat) :
    (store.update k buffers).source j =
      if j = k then buffers.source else if j = k + 1 then buffers.totals else store.source j := by
  cases k with
  | zero =>
      cases j with
      | zero => rfl
      | succ j =>
          simp only [update, source]
          rw [getD_setIfInBounds]
          simp [hk]
  | succ k =>
      cases j with
      | zero => rfl
      | succ j =>
          have hk' : k < store.levels.size := by omega
          simp only [update, source]
          rw [getD_setIfInBounds, getD_setIfInBounds]
          by_cases hsource : j = k <;> by_cases htotals : j = k + 1 <;> simp_all

omit [Inhabited α] in
theorem Store.size_update (k : Nat) (buffers : Buffers α) :
    (store.update k buffers).levels.size = store.levels.size := by
  cases k <;> simp [update]

/-- All buffers have the sizes that they had. -/
structure SameSizes (store after : Store α) : Prop where
  levels : after.levels.size = store.levels.size
  sources : ∀ j, (after.source j).size = (store.source j).size

omit [Inhabited α] in
theorem SameSizes.update {k : Nat} {buffers : Buffers α}
    (hsource : buffers.source.size = (store.source k).size)
    (htotals : buffers.totals.size = (store.source (k + 1)).size) :
    SameSizes store (store.update k buffers) := by
  refine ⟨Store.size_update k buffers, ?_⟩
  intro j
  cases k with
  | zero =>
      cases j with
      | zero => exact hsource
      | succ j =>
          simp only [Store.update, Store.source]
          rw [getD_setIfInBounds]
          split
          · rename_i hj
            rw [htotals, hj.1]
            rfl
          · rfl
  | succ k =>
      cases j with
      | zero => rfl
      | succ j =>
          simp only [Store.update, Store.source]
          rw [getD_setIfInBounds, getD_setIfInBounds]
          split
          · rename_i hj
            rw [htotals, hj.1]
            rfl
          · split
            · rename_i hj
              rw [hsource, hj.1]
              rfl
            · rfl

theorem runPass_sizes {pass : Pass} {after : Store α}
    (h : (runPass op fill settings pass store).result = .ok after) : SameSizes store after := by
  obtain ⟨grid, _, hrun⟩ := Submission.result_bind_eq_ok.1 h
  cases hrun
  obtain ⟨hsource, htotals⟩ := grid.run_sizes op fill
    ⟨store.source pass.level, store.source (pass.level + 1)⟩
  exact SameSizes.update hsource htotals

/-- No submission of passes changes the size of a buffer. -/
theorem submitPasses_sizes {device : Device} {profiler : Profiler} {passes : List Pass}
    {after : Store α}
    (h : (submitPasses op fill device profiler settings passes store).result = .ok after) :
    SameSizes store after := by
  rw [submitPasses_result] at h
  induction passes generalizing store with
  | nil =>
      cases h
      exact ⟨rfl, fun _ => rfl⟩
  | cons pass passes ih =>
      rw [List.foldlM_cons] at h
      obtain ⟨between, hpass, hpasses⟩ := bind_eq_ok.1 h
      have hfirst := runPass_sizes hpass
      have hrest := ih hpasses
      exact ⟨hrest.levels.trans hfirst.levels, fun j =>
        (hrest.sources j).trans (hfirst.sources j)⟩

theorem launch_sizes {device : Device} {profiler : Profiler} {length : Size} {layout : Layout}
    {after : Store α}
    (h : (launch op fill device profiler settings length layout store).result = .ok after) :
    SameSizes store after := by
  obtain ⟨_, _, h⟩ := Submission.result_bind_eq_ok.1 h
  obtain ⟨passes, _, h⟩ := Submission.result_bind_eq_ok.1 h
  exact submitPasses_sizes h

/-- The effect of a pass over level `k`, in terms of its two buffers. -/
structure Passed (k : Nat) (buffersRun : Buffers α → Buffers α → Prop) (store after : Store α) :
    Prop where
  levels : after.levels.size = store.levels.size
  others : ∀ j, j ≠ k → j ≠ k + 1 → after.source j = store.source j
  run : buffersRun ⟨store.source k, store.source (k + 1)⟩ ⟨after.source k, after.source (k + 1)⟩

omit [Inhabited α] in
theorem Passed.of_update {k : Nat} (hk : k < store.levels.size) {buffers : Buffers α}
    {buffersRun : Buffers α → Buffers α → Prop}
    (h : buffersRun ⟨store.source k, store.source (k + 1)⟩ buffers) :
    Passed k buffersRun store (store.update k buffers) := by
  refine ⟨Store.size_update k buffers, ?_, ?_⟩
  · intro j hsource htotals
    rw [Store.source_update hk, if_neg hsource, if_neg htotals]
  · rw [Store.source_update hk, Store.source_update hk, if_pos rfl, if_neg (by omega), if_pos rfl]
    exact h

variable (op fill)

theorem reduction_result (hfit : settings.granularity.toNat + settings.cubeDim.toNat ≤ 2 ^ 32)
    {k : Nat} (hk : k < store.levels.size) {cubeCount : Index}
    (hword : cubeCount.toNat * settings.granularity.toNat ≤ 2 ^ 32)
    (hsize : cubeCount.toNat * settings.granularity.toNat ≤ (store.source k).size) :
    ∃ after, (runPass op fill settings ⟨.reduce, k, cubeCount⟩ store).result = .ok after ∧
      Passed k (BlocksReduced op settings · cubeCount.toNat) store after := by
  obtain ⟨program, hprogram⟩ := Program.reduce_isOk settings
  have hresult : (runPass op fill settings ⟨.reduce, k, cubeCount⟩ store).result =
      .ok (store.update k (Grid.run op fill ⟨settings, program, cubeCount, fun position =>
        position * settings.granularity⟩ ⟨store.source k, store.source (k + 1)⟩)) := by
    rw [runPass, grid, hprogram]
    rfl
  exact ⟨_, hresult, Passed.of_update hk (reduceGrid_run hprogram hfit hword hsize)⟩

theorem expansion_result (hfit : settings.granularity.toNat + settings.cubeDim.toNat ≤ 2 ^ 32)
    {k : Nat} (hk : k < store.levels.size) {cubeCount : Index}
    (hword : (cubeCount.toNat + 1) * settings.granularity.toNat ≤ 2 ^ 32)
    (hsize : (cubeCount.toNat + 1) * settings.granularity.toNat ≤ (store.source k).size) :
    ∃ after, (runPass op fill settings ⟨.expand, k, cubeCount⟩ store).result = .ok after ∧
      Passed k (BlocksExpanded op settings · cubeCount.toNat) store after :=
  ⟨_, rfl, Passed.of_update hk (expandGrid_run hfit hword hsize)⟩

end Scan

end PrefixScan
