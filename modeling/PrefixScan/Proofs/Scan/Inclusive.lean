import PrefixScan.Proofs.Scan.Accept
import PrefixScan.Proofs.Scan.Sweep

/-!
# The inclusive scan of a buffer

A hierarchical scan that is accepted leaves the data with its inclusive scan, in the order of
`Bracketing.ofScan`.  The contents of the cascade and of fresh memory, the number of units of a cube
and the profiler have no part in it.

## Main definitions

* `Scan.inclusive` — the inclusive scan of the start of an array.

## Main results

* `launch_run` — the data and the cascade after the passes of a layout.
* `launch_inclusive` — an accepted scan succeeds with the inclusive scan.
-/

namespace PrefixScan.Scan

open Cascade Bracketing

variable {α : Type} [Inhabited α] {op : Operator α} {fill : α} {settings : Settings}
variable {layout : Layout} {data : Array α} {levels : Array (Array α)}

/-! ## The scan of an array -/

/-- The inclusive scan of the first `length` elements of an array. -/
def inclusive (op : Operator α) (planeDim granularity length : Nat) (data : Array α) : Array α :=
  Array.ofFn fun i : Fin data.size =>
    if i.val < length then
      (ofScan planeDim granularity i).eval op.combine (data.getD · default)
    else data[i]

theorem size_inclusive (planeDim granularity length : Nat) (data : Array α) :
    (inclusive op planeDim granularity length data).size = data.size := by
  simp [inclusive]

theorem getElem_inclusive {planeDim granularity length i : Nat}
    (hi : i < (inclusive op planeDim granularity length data).size) :
    (inclusive op planeDim granularity length data)[i] =
      if i < length then (ofScan planeDim granularity i).eval op.combine (data.getD · default)
      else data.getD i default := by
  have hi' : i < data.size := size_inclusive planeDim granularity length data ▸ hi
  simp [inclusive, Array.getD_eq_getD_getElem?, hi']

theorem getD_inclusive {planeDim granularity length i : Nat} (hi : i < data.size) :
    (inclusive op planeDim granularity length data).getD i default =
      if i < length then (ofScan planeDim granularity i).eval op.combine (data.getD · default)
      else data.getD i default := by
  have hi' : i < (inclusive op planeDim granularity length data).size :=
    (size_inclusive planeDim granularity length data).symm ▸ hi
  rw [← getElem_inclusive hi', Array.getD_eq_getD_getElem?, Array.getElem?_eq_getElem hi']
  rfl

theorem getElem?_inclusive {planeDim granularity length i : Nat} (hi : length ≤ i) :
    (inclusive op planeDim granularity length data)[i]? = data[i]? := by
  by_cases hin : i < data.size
  · simp [inclusive, hin, Nat.not_lt.2 hi]
  · simp [inclusive, hin]

/-- An item of the scan depends on the items up to it. -/
theorem getD_inclusive_congr {planeDim granularity length length' i : Nat} {data' : Array α}
    (hplane : 0 < planeDim) (hgran : 0 < granularity) (hi : i < length) (hi' : i < length')
    (hsize : length ≤ data.size) (hsize' : length' ≤ data'.size)
    (hsame : ∀ j ≤ i, data.getD j default = data'.getD j default) :
    (inclusive op planeDim granularity length data).getD i default =
      (inclusive op planeDim granularity length' data').getD i default := by
  rw [getD_inclusive (by omega), getD_inclusive (by omega), if_pos hi, if_pos hi']
  apply eval_congr
  intro j hj
  rw [items_ofScan hplane hgran, List.mem_range] at hj
  exact hsame j (by omega)

/-- For an associative operation an item is the running fold. -/
theorem getD_inclusive_of_assoc {planeDim granularity length i : Nat} (hplane : 0 < planeDim)
    (hgran : 0 < granularity) (hi : i < length) (hsize : length ≤ data.size)
    (hassoc : ∀ a b c, op.combine (op.combine a b) c = op.combine a (op.combine b c)) :
    (inclusive op planeDim granularity length data).getD i default =
      (List.range' 1 i).foldl (fun acc j => op.combine acc (data.getD j default))
        (data.getD 0 default) := by
  have hitems : (ofScan planeDim granularity i).items = 0 :: List.range' 1 i := by
    rw [items_ofScan hplane hgran, List.range_eq_range', List.range'_succ]
  rw [getD_inclusive (by omega), if_pos hi]
  exact eval_eq_foldl hassoc _ hitems

/-! ## Passes of a layout -/

omit [Inhabited α] in
theorem fits_of_stores (h : layout.Sound) (hlevels : layout.Stores levels)
    (hdata : layout.inputLength.toNat ≤ data.size) : Store.Fits layout ⟨data, levels⟩ := by
  refine ⟨hlevels.1, ?_⟩
  intro j hj
  cases j with
  | zero => exact Nat.le_trans (h.whole.count_mul_le 0) hdata
  | succ k => exact Nat.le_of_eq (hlevels.size_eq h.whole hj).symm

/-- The sweeps over all levels leave the data with its inclusive scan. -/
theorem Swept.data_eq {initial after : Store α} (hsound : layout.Sound)
    (hgran : layout.granularity.toNat = settings.granularity.toNat)
    (h : Swept op settings layout initial 0 initial after) :
    after.data = inclusive op settings.planeDim.toNat settings.granularity.toNat
      layout.inputLength.toNat initial.data := by
  have hsize : after.data.size = initial.data.size := h.sizes 0
  have hlevels := hsound.whole.numLevels_pos
  have hblocks : layout.count 1 * settings.granularity.toNat = layout.inputLength.toNat :=
    hgran ▸ hsound.whole.count_one_mul
  apply Array.ext
  · rw [hsize, size_inclusive]
  · intro i hi hi'
    have hcell := h.cells 0 (Nat.le_refl _) (Nat.zero_le _) i
    rw [settled, hblocks] at hcell
    have hitem : after.cell 0 i = after.data[i] := by
      simp [Store.cell, Store.source, Array.getD_eq_getD_getElem?, hi]
    rw [getElem_inclusive hi', ← hitem, hcell]
    by_cases hin : i < layout.inputLength.toNat
    · rw [if_pos ⟨hlevels, hin⟩, if_pos hin]
      rfl
    · rw [if_neg fun hboth => hin hboth.2, if_neg hin]
      rfl

theorem Swept.stores {initial after : Store α} (h : Swept op settings layout initial 0 initial after)
    (hlevels : layout.Stores initial.levels) : layout.Stores after.levels :=
  ⟨h.levels.trans hlevels.1, fun k level hlevel =>
    (h.sizes (k + 1)).trans (hlevels.2 k level hlevel)⟩

theorem launch_run (op : Operator α) (fill : α) {device : Device} {profiler : Profiler}
    {length : Size} {store : Store α} (h : layout.Sound)
    (hgran : layout.granularity.toNat = settings.granularity.toNat)
    (hfit : settings.granularity.toNat + settings.cubeDim.toNat ≤ 2 ^ 32)
    (hfits : store.Fits layout) :
    ∃ after, (launch op fill device profiler settings length layout store).result = .ok after ∧
      Swept op settings layout store 0 store after := by
  have hrising : Rising op settings layout store 0 store :=
    ⟨hfits, fun _ => rfl, fun _ _ _ => rfl⟩
  obtain ⟨after, hrun, hswept⟩ := sweep_run op fill h hgran hfit (Nat.zero_add _) hrising
  refine ⟨after, ?_, hswept⟩
  have hpasses : (liftM layout.passes : Submission (List Pass)).result =
      .ok (layout.nested layout.numLevels 0) := h.whole.passes_eq
  rw [launch, Submission.result_bind, Submission.result_emit]
  show (Submission.result _) = _
  rw [Submission.result_bind, hpasses]
  show (submitPasses op fill device profiler settings _ store).result = _
  rw [submitPasses_result, hrun]

/-- What a scan takes for granted: a cascade of the library, with the buffers that were allocated for
it, at least as many elements as are to be scanned, and 32-bit positions that reach all of them. -/
structure Ready (config : Config) (length : Size) (layout : Layout) (store : Store α) : Prop where
  built : layout.Built
  stores : layout.Stores store.levels
  data : length.toNat ≤ store.data.size
  reach : length.toNat ≤ 2 ^ 32
  fits : config.granularity.toNat + config.cubeDim.toNat ≤ 2 ^ 32

theorem launch_swept (op : Operator α) (fill : α) {device : Device} {config : Config}
    {length : Size} {store : Store α} (hready : Ready config length layout store)
    (haccept : accept device config length layout = .ok settings) :
    ∃ after, (launch op fill device ⟨config.profiling⟩ settings length layout store).result =
        .ok after ∧
      Swept op settings layout store 0 store after := by
  have haccepted := accepted_of_accept haccept
  have hsound := haccepted.sound hready.built hready.reach
  have hfit : settings.granularity.toNat + settings.cubeDim.toNat ≤ 2 ^ 32 := by
    rw [haccepted.granularity, haccepted.cubeDim]
    exact hready.fits
  have hdata : layout.inputLength.toNat ≤ store.data.size := by
    rw [haccepted.inputLength]
    exact hready.data
  exact launch_run op fill hsound haccepted.granularity_eq hfit
    (fits_of_stores hsound hready.stores hdata)

/-- An accepted scan succeeds.  It leaves the data with its inclusive scan and the cascade with buffers
of the same lengths. -/
theorem launch_inclusive (op : Operator α) (fill : α) {device : Device} {config : Config}
    {length : Size} {store : Store α} (hready : Ready config length layout store)
    (haccept : accept device config length layout = .ok settings) :
    ∃ after, (launch op fill device ⟨config.profiling⟩ settings length layout store).result =
        .ok after ∧
      after.data =
        inclusive op device.planeMin.toNat config.granularity.toNat length.toNat store.data ∧
      layout.Stores after.levels := by
  have haccepted := accepted_of_accept haccept
  have hsound := haccepted.sound hready.built hready.reach
  obtain ⟨after, hrun, hswept⟩ := launch_swept op fill hready haccept
  refine ⟨after, hrun, ?_, hswept.stores hready.stores⟩
  rw [hswept.data_eq hsound haccepted.granularity_eq, haccepted.granularity, haccepted.planeDim,
    haccepted.inputLength]

/-- A scan that is not refused has passed its checks. -/
theorem accept_of_hierarchical {device : Device} {config : Config} {length : Size} {store : Store α}
    {submission : Submission (Store α)}
    (h : hierarchical op fill device config length layout store = .ok submission) :
    ∃ settings, accept device config length layout = .ok settings ∧
      submission = launch op fill device ⟨config.profiling⟩ settings length layout store := by
  cases haccept : accept device config length layout with
  | error error =>
      rw [hierarchical_of_refuse op fill haccept] at h
      cases h
  | ok settings =>
      rw [hierarchical_of_accept op fill haccept] at h
      cases h
      exact ⟨settings, rfl, rfl⟩

/-- The data after a successful scan. -/
theorem data_of_hierarchical {device : Device} {config : Config} {length : Size}
    {store after : Store α} {submission : Submission (Store α)}
    (hrun : hierarchical op fill device config length layout store = .ok submission)
    (hresult : submission.result = .ok after) (hready : Ready config length layout store) :
    0 < device.planeMin.toNat ∧ 0 < config.granularity.toNat ∧ after.data =
      inclusive op device.planeMin.toNat config.granularity.toNat length.toNat store.data := by
  obtain ⟨settings, haccept, rfl⟩ := accept_of_hierarchical hrun
  obtain ⟨after', hresult', hafter, _⟩ := launch_inclusive op fill hready haccept
  rw [hresult'] at hresult
  cases hresult
  have haccepted := accepted_of_accept haccept
  have hplane := settings.two_le_planeDim
  have hgran := settings.two_le_granularity
  rw [haccepted.planeDim] at hplane
  rw [haccepted.granularity] at hgran
  exact ⟨by omega, by omega, hafter⟩

end PrefixScan.Scan
