import PrefixScan.Proofs.Cascade.Shape

/-!
# Accepted scans

The checks of a scan establish what its passes rely on: blocks of at least two elements that make up
the whole buffer, and a cascade for this very length and granularity.

## Main definitions

* `Cascade.Layout.Built` — the layouts that the library builds.
* `Cascade.Layout.Stores` — contents of the buffers of a layout.
* `Scan.Accepted` — what the checks establish.

## Main results

* `Scan.accept_eq_ok_iff` — a scan is accepted exactly if every check passes.
* `Scan.Accepted.whole` — the layout of an accepted scan.
* `Scan.Accepted.sound` — the same, if 32-bit positions reach its buffer.
-/

namespace PrefixScan

open Cascade

/-! ## Layouts and their storage -/

/-- The layout was built for its length and its granularity. -/
def Cascade.Layout.Built (layout : Layout) : Prop :=
  Layout.ofLength layout.inputLength layout.granularity = .ok layout

/-- There is a buffer for each level, of the length of the level. -/
def Cascade.Layout.Stores {α : Type} (layout : Layout) (levels : Array (Array α)) : Prop :=
  levels.size = layout.numLevels ∧
    ∀ k level, layout.levels[k]? = some level →
      (levels.getD k #[]).size = level.length.toNat

theorem Cascade.Layout.ofLength_fields {length granularity : Size} {layout : Layout}
    (h : Layout.ofLength length granularity = .ok layout) :
    layout.inputLength = length ∧ layout.granularity = granularity := by
  obtain ⟨levels, _, rfl⟩ := Layout.ofLength_eq_ok h
  exact ⟨rfl, rfl⟩

theorem Cascade.Layout.built_of_ofLength {length granularity : Size} {layout : Layout}
    (h : Layout.ofLength length granularity = .ok layout) : layout.Built := by
  obtain ⟨hlength, hgran⟩ := Layout.ofLength_fields h
  rw [Layout.Built, hlength, hgran, h]

theorem Cascade.Layout.stores_fresh {α : Type} (layout : Layout) (fill : α) :
    layout.Stores (layout.fresh fill) := by
  constructor
  · simp [Layout.fresh, Layout.numLevels]
  · intro k level hlevel
    simp [Layout.fresh, Array.getD_eq_getD_getElem?, hlevel]

theorem Cascade.Layout.stores_of_sizes {α : Type} {layout : Layout} {levels : Array (Array α)}
    (h : levels.toList.map Array.size = layout.levels.map fun level => level.length.toNat) :
    layout.Stores levels := by
  constructor
  · simpa [Layout.numLevels] using congrArg List.length h
  · intro k level hlevel
    have hk := congrArg (·[k]?) h
    simp only [List.getElem?_map, hlevel, Option.map_some, Array.getElem?_toList,
      Option.map_eq_some_iff] at hk
    obtain ⟨buffer, hbuffer, hsize⟩ := hk
    rw [Array.getD_eq_getD_getElem?, hbuffer]
    exact hsize

theorem Cascade.Layout.Stores.size_eq {α : Type} {layout : Layout} {levels : Array (Array α)}
    (hlevels : layout.Stores levels) (h : layout.Whole) {k : Nat} (hk : k < layout.numLevels) :
    (levels.getD k #[]).size = layout.count (k + 2) * layout.granularity.toNat := by
  obtain ⟨level, _, hentry⟩ := Layout.level_isOk hk
  exact (hlevels.2 k level hentry).trans (h.shape.length k level hentry)

/-! ## The checks -/

theorem toNat_setWidth (granularity : Index) :
    (granularity.setWidth 64).toNat = granularity.toNat := by
  have hlt := granularity.isLt
  rw [BitVec.toNat_setWidth, Nat.mod_eq_of_lt (by omega)]

theorem Settings.ofConfig_eq_ok {config : Config} {planeDim : Index} {settings : Settings}
    (h : Settings.ofConfig config planeDim = .ok settings) :
    settings.granularity = config.granularity ∧ settings.cubeDim = config.cubeDim ∧
      settings.planeDim = planeDim := by
  unfold Settings.ofConfig at h
  split at h
  · cases h
  · cases h
    exact ⟨rfl, rfl, rfl⟩

/-- A configuration that passes the validation has settings. -/
theorem Settings.ofConfig_isOk {config : Config} {planeDim : Index}
    (h : config.validate planeDim = .ok ()) :
    ∃ settings, Settings.ofConfig config planeDim = .ok settings := by
  unfold Config.validate at h
  split at h
  · cases h
  · rename_i hnone
    unfold Settings.ofConfig
    split
    · rename_i defect hsome
      rw [hnone] at hsome
      cases hsome
    · exact ⟨_, rfl⟩

/-- A configuration that fails the validation has no settings. -/
theorem Settings.ofConfig_eq_error {config : Config} {planeDim : Index} {error : ScanError}
    (h : config.validate planeDim = .error error) :
    Settings.ofConfig config planeDim = .error error := by
  unfold Config.validate at h
  unfold Settings.ofConfig
  split at h
  · rename_i defect hdefect
    cases h
    split
    · rename_i defect' hdefect'
      rw [hdefect] at hdefect'
      cases hdefect'
      rfl
    · rename_i hnone
      rw [hdefect] at hnone
      cases hnone
  · cases h

theorem Device.settings_eq (device : Device) (config : Config) (hplanes : device.planes = true)
    (hdim : device.planeMin = device.planeMax) :
    device.settings config = Settings.ofConfig config device.planeMin := by
  rw [Device.settings, if_neg (by simp [hplanes]), if_neg (by simp [hdim])]

theorem Device.settings_eq_ok {device : Device} {config : Config} {settings : Settings}
    (h : device.settings config = .ok settings) :
    Settings.ofConfig config device.planeMin = .ok settings := by
  unfold Device.settings at h
  split at h
  · cases h
  · split at h
    · cases h
    · exact h

theorem checkLength_eq_ok {length : Size} {granularity : Index}
    (h : checkLength length granularity = .ok ()) :
    0 < length.toNat ∧ 2 ≤ granularity.toNat ∧ granularity.toNat ∣ length.toNat := by
  unfold checkLength at h
  split at h
  · cases h
  · rename_i hvalid
    simp only [not_or, not_not] at hvalid
    obtain ⟨hne, htwo, hmod⟩ := hvalid
    refine ⟨?_, BitVec.le_def.1 (BitVec.not_lt.1 htwo), ?_⟩
    · apply Nat.pos_of_ne_zero
      intro hzero
      exact hne (BitVec.eq_of_toNat_eq (by simpa using hzero))
    · rw [Word.mod_eq_zero_iff, toNat_setWidth] at hmod
      exact Nat.dvd_of_mod_eq_zero hmod

theorem Cascade.Layout.validate_eq_ok_iff {layout : Layout} {length : Size} {granularity : Index} :
    layout.validate length granularity = .ok () ↔
      layout.inputLength = length ∧ layout.granularity = granularity.setWidth 64 := by
  unfold Layout.validate
  simp only [Prod.mk.injEq]
  constructor
  · intro h
    split at h
    · rename_i hsame
      exact ⟨hsame.1.symm, hsame.2.symm⟩
    · cases h
  · rintro ⟨hlength, hgran⟩
    rw [if_pos ⟨hlength.symm, hgran.symm⟩]

namespace Scan

variable {device : Device} {config : Config} {length : Size} {layout : Layout}
variable {settings : Settings}

theorem accept_eq_ok_iff : accept device config length layout = .ok settings ↔
    device.settings config = .ok settings ∧ checkLength length config.granularity = .ok () ∧
      layout.validate length config.granularity = .ok () := by
  unfold accept
  cases device.settings config <;> cases checkLength length config.granularity <;>
    cases layout.validate length config.granularity <;> simp [bind, Except.bind, pure, Except.pure]

/-- A scan passes its checks if the device has planes of one dimension, the configuration and the length
are valid, and the layout is built for them. -/
theorem accept_isOk (hplanes : device.planes = true) (hdim : device.planeMin = device.planeMax)
    (hconfig : config.validate device.planeMin = .ok ())
    (hcheck : checkLength length config.granularity = .ok ())
    (hlayout : Layout.ofLength length (config.granularity.setWidth 64) = .ok layout) :
    ∃ settings, accept device config length layout = .ok settings := by
  obtain ⟨settings, hsettings⟩ := Settings.ofConfig_isOk hconfig
  exact ⟨settings, accept_eq_ok_iff.2 ⟨(device.settings_eq config hplanes hdim).trans hsettings, hcheck,
    Layout.validate_eq_ok_iff.2 (Layout.ofLength_fields hlayout)⟩⟩

/-- What the checks of a scan say about its settings, its length and its layout. -/
structure Accepted (device : Device) (config : Config) (length : Size) (layout : Layout)
    (settings : Settings) : Prop where
  granularity : settings.granularity = config.granularity
  cubeDim : settings.cubeDim = config.cubeDim
  planeDim : settings.planeDim = device.planeMin
  pos : 0 < length.toNat
  dvd : config.granularity.toNat ∣ length.toNat
  inputLength : layout.inputLength = length
  layoutGranularity : layout.granularity = config.granularity.setWidth 64

theorem accepted_of_accept (h : accept device config length layout = .ok settings) :
    Accepted device config length layout settings := by
  obtain ⟨hdevice, hlength, hlayout⟩ := accept_eq_ok_iff.1 h
  obtain ⟨hgran, hcube, hplane⟩ := Settings.ofConfig_eq_ok (Device.settings_eq_ok hdevice)
  obtain ⟨hpos, _, hdvd⟩ := checkLength_eq_ok hlength
  obtain ⟨hinput, hlayoutGran⟩ := Layout.validate_eq_ok_iff.1 hlayout
  exact ⟨hgran, hcube, hplane, hpos, hdvd, hinput, hlayoutGran⟩

theorem Accepted.granularity_eq (h : Accepted device config length layout settings) :
    layout.granularity.toNat = settings.granularity.toNat := by
  rw [h.layoutGranularity, toNat_setWidth, h.granularity]

theorem Accepted.whole (h : Accepted device config length layout settings)
    (hbuilt : layout.Built) : layout.Whole := by
  have htwo : 2 ≤ layout.granularity.toNat := h.granularity_eq ▸ settings.two_le_granularity
  refine ⟨htwo, ?_, ?_, Layout.shape_of_ofLength htwo hbuilt⟩
  · rw [h.inputLength]
    exact h.pos
  · rw [h.inputLength, h.granularity_eq, h.granularity]
    exact h.dvd

theorem Accepted.sound (h : Accepted device config length layout settings) (hbuilt : layout.Built)
    (hfits : length.toNat ≤ 2 ^ 32) : layout.Sound := by
  have hwhole := h.whole hbuilt
  exact ⟨hwhole.two_le_granularity, hwhole.pos, hwhole.dvd, h.inputLength ▸ hfits, hwhole.shape⟩

end Scan

end PrefixScan
