import PrefixScan.Config.Basic
import PrefixScan.Scratch

/-!
# Kernel settings

The parameters that a kernel is expanded with. They exist only for a configuration that fits the
plane dimension, so kernels rely on whole planes per cube and per block.

## Main definitions

* `Settings` — the parameters, with what the checks established about them.
* `Settings.ofConfig` — the settings of a configuration for a plane dimension.
-/

namespace PrefixScan

/-- Parameters shared by all scan kernels. -/
structure Settings where
  granularity : Index
  cubeDim : Index
  planeDim : Index
  /-- Planes shrink what they reduce. -/
  two_le_planeDim : 2 ≤ planeDim.toNat
  /-- A cube has units. -/
  cubeDim_pos : 0 < cubeDim.toNat
  /-- A cube is made of whole planes. -/
  planeDim_dvd_cubeDim : planeDim.toNat ∣ cubeDim.toNat
  /-- A block has at least two elements. -/
  two_le_granularity : 2 ≤ granularity.toNat
  /-- A block is made of whole planes. -/
  planeDim_dvd_granularity : planeDim.toNat ∣ granularity.toNat

/-- What the absence of a defect says about the numbers. -/
theorem Config.defect?_eq_none {config : Config} {planeDim : Index}
    (h : config.defect? planeDim = none) :
    2 ≤ planeDim.toNat ∧ 0 < config.cubeDim.toNat ∧ planeDim.toNat ∣ config.cubeDim.toNat ∧
      2 ≤ config.granularity.toNat ∧ planeDim.toNat ∣ config.granularity.toNat := by
  have two : (2 : Index).toNat = 2 := rfl
  have dvd : ∀ x : Index, x % planeDim = 0 → planeDim.toNat ∣ x.toNat := by
    intro x hx
    apply Nat.dvd_of_mod_eq_zero
    have := congrArg BitVec.toNat hx
    simpa [BitVec.toNat_umod] using this
  unfold Config.defect? at h
  split at h
  · cases h
  rename_i hplane
  split at h
  · cases h
  rename_i hcube
  split at h
  · cases h
  rename_i hgran
  rw [not_or] at hcube hgran
  have hplane := BitVec.le_def.mp (BitVec.not_lt.mp hplane)
  have hgran2 := BitVec.le_def.mp (BitVec.not_lt.mp hgran.1)
  refine ⟨by omega, ?_, dvd _ (Decidable.not_not.mp hcube.2), by omega,
    dvd _ (Decidable.not_not.mp hgran.2)⟩
  apply Nat.pos_of_ne_zero
  intro hzero
  exact hcube.1 (BitVec.eq_of_toNat_eq (by simpa using hzero))

/-- Settings of `config` for planes of `planeDim` units. -/
def Settings.ofConfig (config : Config) (planeDim : Index) : Except ScanError Settings :=
  match h : config.defect? planeDim with
  | some defect => .error (.invalidConfig defect.reason)
  | none =>
    have facts := Config.defect?_eq_none h
    .ok {
      granularity := config.granularity
      cubeDim := config.cubeDim
      planeDim := planeDim
      two_le_planeDim := facts.1
      cubeDim_pos := facts.2.1
      planeDim_dvd_cubeDim := facts.2.2.1
      two_le_granularity := facts.2.2.2.1
      planeDim_dvd_granularity := facts.2.2.2.2 }

/-- Scratch layout of the scan of one block. -/
def Settings.scratch (settings : Settings) : Scratch :=
  Scratch.ofRange settings.granularity settings.planeDim

end PrefixScan
