import PrefixScan.Proofs.Scan.Accept

/-!
# The checks of a scan

A scan looks at its preconditions one after the other, and the first that does not hold decides how it is
refused.  The last of them compares two numbers of the cascade only, which is enough because a cascade is
built from these two numbers.

## Main definitions

* `Scan.Check` — a precondition, with the error that says that it does not hold.
* `Scan.checks` — the preconditions of a scan, in order.
* `Scan.Reports` — a result that is decided by checks.
* `Scan.Admissible` — all preconditions together.

## Main results

* `Scan.accept_reports` — the checks decide whether a scan is accepted, and the error if it is not.
-/

namespace PrefixScan.Scan

open Cascade

/-! ## Results of checks -/

/-- A precondition: whether it holds, and the error that says that it does not. -/
structure Check where
  holds : Bool
  error : ScanError

/-- The first check that does not hold. -/
def firstUnmet (checks : List Check) : Option Check :=
  checks.find? fun check => !check.holds

/-- The result is the error of the first check that does not hold, and there is an error only then. -/
def Reports {β : Type} (checks : List Check) (result : Except ScanError β) : Prop :=
  match firstUnmet checks with
  | some check => result = .error check.error
  | none => ∃ x, result = .ok x

section Reports

variable {β γ : Type} {check : Check} {checks rest : List Check} {result : Except ScanError β}

theorem firstUnmet_eq_none : firstUnmet checks = none ↔ ∀ check ∈ checks, check.holds = true := by
  simp [firstUnmet]

theorem firstUnmet_append :
    firstUnmet (checks ++ rest) = (firstUnmet checks).or (firstUnmet rest) :=
  List.find?_append

theorem Reports.ok (x : β) : Reports [] (.ok x : Except ScanError β) := ⟨x, rfl⟩

theorem Reports.unmet (h : check.holds = false) :
    Reports (check :: rest) (.error check.error : Except ScanError β) := by
  simp [Reports, firstUnmet, h]

theorem Reports.met (h : check.holds = true) (hrest : Reports rest result) :
    Reports (check :: rest) result := by
  simpa [Reports, firstUnmet, h] using hrest

/-- A result that fails with another, and with the same error, is decided by the same checks. -/
theorem Reports.transfer {other : Except ScanError γ} (h : Reports checks result)
    (herror : ∀ error, result = .error error → other = .error error)
    (hok : ∀ x, result = .ok x → ∃ y, other = .ok y) : Reports checks other := by
  unfold Reports at h ⊢
  cases hunmet : firstUnmet checks with
  | some check =>
      rw [hunmet] at h
      exact herror _ h
  | none =>
      rw [hunmet] at h
      obtain ⟨x, hx⟩ := h
      exact hok x hx

/-- One check after the other. -/
theorem Reports.bind {next : β → Except ScanError γ} (h : Reports checks result)
    (hnext : ∀ x, result = .ok x → Reports rest (next x)) :
    Reports (checks ++ rest) (result >>= next) := by
  unfold Reports at h ⊢
  rw [firstUnmet_append]
  cases hunmet : firstUnmet checks with
  | some check =>
      rw [hunmet] at h
      rw [h]
      rfl
  | none =>
      rw [hunmet] at h
      obtain ⟨x, hx⟩ := h
      rw [Option.none_or, hx]
      exact hnext x hx

end Reports

/-! ## The preconditions -/

variable {device : Device} {config : Config} {length : Size} {layout : Layout}

/-- What a configuration has to be for planes of a dimension. -/
def configChecks (config : Config) (planeDim : Index) : List Check := [
  ⟨2 ≤ planeDim.toNat, .invalidConfig (Config.Defect.planeDim planeDim).reason⟩,
  ⟨0 < config.cubeDim.toNat ∧ planeDim.toNat ∣ config.cubeDim.toNat,
    .invalidConfig (Config.Defect.cubeDim config.cubeDim planeDim).reason⟩,
  ⟨0 < config.granularity.toNat ∧ planeDim.toNat ∣ config.granularity.toNat,
    .invalidConfig (Config.Defect.granularity config.granularity planeDim).reason⟩]

/-- What a device has to be, and a configuration for it. -/
def deviceChecks (device : Device) (config : Config) : List Check :=
  ⟨device.planes, .planesUnavailable⟩ ::
    ⟨device.planeMin = device.planeMax, .imprecisePlaneDim⟩ ::
    configChecks config device.planeMin

/-- What the length of a buffer has to be. -/
def lengthCheck (config : Config) (length : Size) : Check :=
  ⟨0 < length.toNat ∧ config.granularity.toNat ∣ length.toNat,
    .invalidLength length config.granularity⟩

/-- What the cascade has to be, in all of its levels. -/
def layoutCheck (config : Config) (length : Size) (layout : Layout) : Check :=
  ⟨Layout.ofLength length (config.granularity.setWidth 64) = .ok layout,
    .cascadeMismatch (length, config.granularity.setWidth 64)
      (layout.inputLength, layout.granularity)⟩

/-- The preconditions of a scan, in the order in which they are looked at. -/
def checks (device : Device) (config : Config) (length : Size) (layout : Layout) : List Check :=
  deviceChecks device config ++ [lengthCheck config length, layoutCheck config length layout]

/-- All preconditions of a scan hold: the device has planes of one dimension of at least two units, a cube
and a block are made of whole planes, the buffer is made of whole blocks, and the cascade is the one for its
length. -/
structure Admissible (device : Device) (config : Config) (length : Size) (layout : Layout) : Prop where
  planes : device.planes = true
  planeDim : device.planeMin = device.planeMax
  two_le_planeDim : 2 ≤ device.planeMin.toNat
  cubeDim : 0 < config.cubeDim.toNat ∧ device.planeMin.toNat ∣ config.cubeDim.toNat
  granularity : 0 < config.granularity.toNat ∧ device.planeMin.toNat ∣ config.granularity.toNat
  blocks : 0 < length.toNat ∧ config.granularity.toNat ∣ length.toNat
  cascade : Layout.ofLength length (config.granularity.setWidth 64) = .ok layout

theorem admissible_iff : Admissible device config length layout ↔
    firstUnmet (checks device config length layout) = none := by
  rw [firstUnmet_eq_none]
  simp only [checks, deviceChecks, configChecks, lengthCheck, layoutCheck, List.forall_mem_append,
    List.forall_mem_cons, decide_eq_true_eq]
  constructor
  · intro h
    exact ⟨⟨h.planes, h.planeDim, h.two_le_planeDim, h.cubeDim, h.granularity, nofun⟩, h.blocks,
      h.cascade, nofun⟩
  · rintro ⟨⟨hplanes, hdim, htwo, hcube, hgran, _⟩, hlength, hlayout, _⟩
    exact ⟨hplanes, hdim, htwo, hcube, hgran, hlength, hlayout⟩

/-! ## What the checks decide -/

theorem lt_two_iff (a : Index) : a < 2 ↔ ¬2 ≤ a.toNat := by
  rw [BitVec.lt_def, Nat.not_le]
  rfl

/-- What is zero or leaves a remainder is no positive multiple. -/
theorem eq_zero_or_mod_ne_iff (a b : Index) :
    a = 0 ∨ a % b ≠ 0 ↔ ¬(0 < a.toNat ∧ b.toNat ∣ a.toNat) := by
  rw [Ne, Word.mod_eq_zero_iff, ← Nat.dvd_iff_mod_eq_zero, ← BitVec.toNat_inj]
  simp only [BitVec.ofNat_eq_ofNat, BitVec.toNat_ofNat, Nat.zero_mod]
  omega

/-- No positive multiple of two or more is below two. -/
theorem lt_two_or_mod_ne_iff (a : Index) {b : Index} (hb : 2 ≤ b.toNat) :
    a < 2 ∨ a % b ≠ 0 ↔ ¬(0 < a.toNat ∧ b.toNat ∣ a.toNat) := by
  rw [← eq_zero_or_mod_ne_iff]
  constructor
  · rintro (hlt | hmod)
    · rw [lt_two_iff] at hlt
      by_cases hzero : a = 0
      · exact .inl hzero
      · right
        rw [Ne, Word.mod_eq_zero_iff, Nat.mod_eq_of_lt (by omega)]
        exact fun h => hzero (BitVec.eq_of_toNat_eq h)
    · exact .inr hmod
  · rintro (rfl | hmod)
    · exact .inl (by decide)
    · exact .inr hmod

theorem configChecks_report (config : Config) (planeDim : Index) :
    Reports (configChecks config planeDim) (config.validate planeDim) := by
  unfold Config.validate Config.defect?
  by_cases htwo : 2 ≤ planeDim.toNat
  · rw [if_neg (mt (lt_two_iff planeDim).1 (not_not.2 htwo))]
    refine .met (decide_eq_true htwo) ?_
    simp only [eq_zero_or_mod_ne_iff, lt_two_or_mod_ne_iff _ htwo]
    by_cases hcube : 0 < config.cubeDim.toNat ∧ planeDim.toNat ∣ config.cubeDim.toNat
    · rw [if_neg (not_not.2 hcube)]
      refine .met (decide_eq_true hcube) ?_
      by_cases hgran : 0 < config.granularity.toNat ∧ planeDim.toNat ∣ config.granularity.toNat
      · rw [if_neg (not_not.2 hgran)]
        exact .met (decide_eq_true hgran) (.ok ())
      · rw [if_pos hgran]
        exact .unmet (decide_eq_false hgran)
    · rw [if_pos hcube]
      exact .unmet (decide_eq_false hcube)
  · rw [if_pos ((lt_two_iff planeDim).2 htwo)]
    exact .unmet (decide_eq_false htwo)

theorem deviceChecks_report (device : Device) (config : Config) :
    Reports (deviceChecks device config) (device.settings config) := by
  unfold Device.settings
  by_cases hplanes : device.planes = true
  · rw [if_neg (by simp [hplanes])]
    refine .met hplanes ?_
    by_cases hdim : device.planeMin = device.planeMax
    · rw [if_neg (not_not.2 hdim)]
      refine .met (decide_eq_true hdim) ?_
      apply (configChecks_report config device.planeMin).transfer
      · exact fun _ => Settings.ofConfig_eq_error
      · rintro ⟨⟩
        exact Settings.ofConfig_isOk
    · rw [if_pos hdim]
      exact .unmet (decide_eq_false hdim)
  · rw [if_pos (by simp [hplanes])]
    exact .unmet (Bool.eq_false_iff.2 hplanes)

/-- Blocks that planes divide have two elements at least, so the check of the length has nothing to say
about them. -/
theorem lengthCheck_reports (length : Size) (htwo : 2 ≤ config.granularity.toNat) :
    Reports [lengthCheck config length] (checkLength length config.granularity) := by
  have hzero : length = 0 ↔ ¬0 < length.toNat := by
    rw [← BitVec.toNat_inj]
    simp
  have hcheck : (length = 0 ∨ config.granularity < 2 ∨
      length % config.granularity.setWidth 64 ≠ 0) ↔
        ¬(0 < length.toNat ∧ config.granularity.toNat ∣ length.toNat) := by
    rw [lt_two_iff, Ne, Word.mod_eq_zero_iff, toNat_setWidth, ← Nat.dvd_iff_mod_eq_zero, hzero]
    omega
  unfold checkLength
  simp only [hcheck]
  by_cases h : 0 < length.toNat ∧ config.granularity.toNat ∣ length.toNat
  · rw [if_neg (not_not.2 h)]
    exact .met (decide_eq_true h) (.ok ())
  · rw [if_pos h]
    exact .unmet (decide_eq_false h)

/-- A cascade is built from the two numbers that the check compares, so it is the right one in all of its
levels if they are. -/
theorem layoutCheck_reports (config : Config) (length : Size) (hbuilt : layout.Built) :
    Reports [layoutCheck config length layout] (layout.validate length config.granularity) := by
  by_cases h : Layout.ofLength length (config.granularity.setWidth 64) = .ok layout
  · refine .met (decide_eq_true h) ?_
    rw [Layout.validate_eq_ok_iff.2 (Layout.ofLength_fields h)]
    exact .ok ()
  · have hne : ¬((length, config.granularity.setWidth 64) =
        (layout.inputLength, layout.granularity)) := by
      rw [Prod.mk.injEq]
      rintro ⟨hlength, hgran⟩
      exact h (by rwa [hlength, hgran])
    rw [Layout.validate, if_neg hne]
    exact .unmet (decide_eq_false h)

/-- The checks decide whether a scan is accepted, and the error if it is not. -/
theorem accept_reports (device : Device) (config : Config) (length : Size) (hbuilt : layout.Built) :
    Reports (checks device config length layout) (accept device config length layout) := by
  apply (deviceChecks_report device config).bind
  intro settings hsettings
  have hgran := (Settings.ofConfig_eq_ok (Device.settings_eq_ok hsettings)).1
  have htwo : 2 ≤ config.granularity.toNat := hgran ▸ settings.two_le_granularity
  apply Reports.bind (lengthCheck_reports length htwo)
  intro _ _
  apply (layoutCheck_reports config length hbuilt).transfer
  · intro error herror
    rw [herror]
    rfl
  · intro _ hok
    exact ⟨settings, by rw [hok]; rfl⟩

end PrefixScan.Scan
