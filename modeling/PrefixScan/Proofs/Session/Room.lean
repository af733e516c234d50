import PrefixScan.Proofs.Scan.Accesses
import PrefixScan.Proofs.Session.Storage

/-!
# Room for commands

Whoever keeps the buffers of a session can turn down a scan that the library would carry out all the same.
It is enough to compare the blocks of every level with the size of its source.  If there is room for these,
then all that the passes read or write lies inside of the buffers, whatever granularity the cubes run with.
An accepted scan has room in its cascade, so for such a scan the buffer alone decides.

## Main results

* `Session.inBounds_of_passExtents` — passes on buffers that hold their blocks.
* `Session.inBounds_of_serve_scan`, `Session.inBounds_of_serve_launch` — what is served stays in bounds.
* `Session.Sound.serve` — what is served keeps cascades sound.
* `Session.serve_scan_eq_none_iff` — the scans that are turned down.
-/

namespace PrefixScan

open Cascade Scan

/-- A built layout that has passes has the shape of a cascade. -/
theorem Cascade.Layout.Built.shape_of_mem {layout : Layout} (hbuilt : layout.Built) {passes : List Pass}
    (hpasses : layout.passes = .ok passes) {pass : Pass} (hpass : pass ∈ passes) :
    0 < layout.granularity.toNat ∧ 0 < layout.inputLength.toNat ∧
      Shape layout.granularity.toNat layout.inputLength.toNat layout.levels := by
  by_cases hmany : 1 < layout.inputLength ∧ 1 < layout.granularity
  · have hlength : 1 < layout.inputLength.toNat := BitVec.lt_def.1 hmany.1
    have hgran : 1 < layout.granularity.toNat := BitVec.lt_def.1 hmany.2
    exact ⟨by omega, by omega, Layout.shape_of_ofLength hgran hbuilt⟩
  · obtain ⟨levels, hlevels, hlayout⟩ := Layout.ofLength_eq_ok hbuilt
    rw [Layout.levelsAbove, dif_neg hmany, Except.ok.injEq] at hlevels
    have hnone : layout.levels = [] := by rw [hlayout, ← hlevels]
    rw [Layout.passes, Layout.numLevels, hnone] at hpasses
    cases hpasses
    cases hpass

namespace Session

/-! ## Extents of passes -/

variable {α : Type} {layout : Layout} {store : Store α} {granularity : Index}

/-- One level of a cascade: the size of its source, and the blocks that its passes go over. -/
theorem getElem?_passExtents (hstores : layout.Stores store.levels) {k : Nat} {level : Level}
    (hlevel : layout.levels[k]? = some level) :
    (passExtents layout store.data.size granularity)[k]? =
      some ⟨(store.source k).size, level.numElems.toNat * granularity.toNat⟩ := by
  have hsource : (store.data.size :: layout.levels.map (·.length.toNat))[k]? =
      some (store.source k).size := by
    cases k with
    | zero => rfl
    | succ k =>
        obtain ⟨below, hbelow⟩ : ∃ below, layout.levels[k]? = some below :=
          ⟨_, List.getElem?_eq_getElem (Nat.lt_of_succ_lt (List.getElem?_eq_some_iff.1 hlevel).1)⟩
        rw [List.getElem?_cons_succ, List.getElem?_map, hbelow]
        exact congrArg some (hstores.2 k below hbelow).symm
  rw [passExtents, List.getElem?_zipWith, hsource, hlevel]

/-- All blocks lie in their sources if those of each level do. -/
theorem forall_mem_passExtents (hstores : layout.Stores store.levels) :
    (∀ extent ∈ passExtents layout store.data.size granularity, extent.count ≤ extent.size) ↔
      ∀ k level, layout.levels[k]? = some level →
        level.numElems.toNat * granularity.toNat ≤ (store.source k).size := by
  constructor
  · intro hall k level hlevel
    exact hall _ (List.mem_of_getElem? (getElem?_passExtents hstores hlevel))
  · intro hall extent hextent
    obtain ⟨k, hk, hget⟩ := List.getElem_of_mem hextent
    have hlevels : k < layout.levels.length := by
      rw [passExtents, List.length_zipWith] at hk
      omega
    have hlevel := List.getElem?_eq_getElem hlevels
    have hentry := @getElem?_passExtents α layout store granularity hstores k _ hlevel
    rw [List.getElem?_eq_getElem hk, hget] at hentry
    cases hentry
    exact hall k _ hlevel

/-- Passes access nothing outside of buffers that hold the blocks of every level. -/
theorem inBounds_of_passExtents (hbuilt : layout.Built) (hstores : layout.Stores store.levels)
    {settings : Settings} {passes : List Pass} (hpasses : layout.passes = .ok passes)
    (hroom : ∀ extent ∈ passExtents layout store.data.size settings.granularity,
      extent.count ≤ extent.size) (k : Nat) : InBounds settings passes store k := by
  intro i haccessed
  have ⟨_, hpass, _⟩ := haccessed
  obtain ⟨hpos, hn, hshape⟩ := hbuilt.shape_of_mem hpasses hpass
  rcases cases_of_accessed hpos hn hshape hpasses haccessed with
    ⟨hlevel, hsource⟩ | ⟨below, hlevel, rfl, htotal⟩
  · obtain ⟨level, _, hentry⟩ := Layout.level_isOk hlevel
    have hfits := (forall_mem_passExtents hstores).1 hroom k level hentry
    have hcount : level.numElems.toNat = layout.count (k + 1) := hshape.numElems k level hentry
    rw [hcount] at hfits
    exact Nat.lt_of_lt_of_le hsource hfits
  · obtain ⟨level, _, hentry⟩ := Layout.level_isOk hlevel
    have hsize : (store.source (below + 1)).size =
        layout.count (below + 2) * layout.granularity.toNat :=
      (hstores.2 below level hentry).trans (hshape.length below level hentry)
    have hpadded : layout.count (below + 1) ≤
        layout.count (below + 2) * layout.granularity.toNat := count_le_mul hpos (below + 1)
    omega

/-! ## Commands -/

variable {session : Session α} {buffer cascade : String} {data : Array α} {slot : Slot α}
  {length : Size} {op : Operator α} {config : Config} {settings : Settings}

theorem hasRoom_iff {command : Command α} {extents : List Extent}
    (h : session.extents command = .ok extents) :
    session.HasRoom command ↔ ∀ extent ∈ extents, extent.count ≤ extent.size :=
  ⟨fun hroom => hroom extents h, fun hall _ hsame => Except.ok.inj (h.symm.trans hsame) ▸ hall⟩

section Room

variable (hbuffer : session.buffers.lookup buffer = some data)
  (hcascade : session.cascades.lookup cascade = some slot)
include hbuffer hcascade

theorem extents_scan_of_accept
    (haccept : accept session.device config length slot.layout = .ok settings) :
    session.extents (.scan buffer length cascade op config) =
      .ok (passExtents slot.layout data.size settings.granularity) := by
  simp only [extents, findBuffer_eq_ok.2 hbuffer, findCascade_eq_ok.2 hcascade]
  show (checked (accept session.device config length slot.layout) >>= _) = _
  rw [haccept]
  rfl

theorem extents_scan_of_refuse {error : ScanError}
    (hrefuse : accept session.device config length slot.layout = .error error) :
    session.extents (.scan buffer length cascade op config) = .error (.scan error) := by
  simp only [extents, findBuffer_eq_ok.2 hbuffer, findCascade_eq_ok.2 hcascade]
  show (checked (accept session.device config length slot.layout) >>= _) = _
  rw [hrefuse]
  rfl

theorem extents_launch {profiling : Bool} (hsettings : session.device.settings config = .ok settings) :
    session.extents (.launch buffer cascade op config profiling) =
      .ok (passExtents slot.layout data.size settings.granularity) := by
  simp only [extents, findBuffer_eq_ok.2 hbuffer, findCascade_eq_ok.2 hcascade, hsettings]
  rfl

/-- There is room for an accepted scan if its buffer holds as many elements as are scanned. -/
theorem hasRoom_scan_iff (hslot : slot.Sound)
    (haccept : accept session.device config length slot.layout = .ok settings) :
    session.HasRoom (.scan buffer length cascade op config) ↔ length.toNat ≤ data.size := by
  have haccepted := accepted_of_accept haccept
  have hwhole := haccepted.whole hslot.built
  have hstores : slot.layout.Stores (session.levelsOf slot) := stores_levelsOf hslot
  have hblocks : ∀ k level, slot.layout.levels[k]? = some level →
      level.numElems.toNat * settings.granularity.toNat =
        slot.layout.count (k + 1) * slot.layout.granularity.toNat := by
    intro k level hlevel
    have hcount : level.numElems.toNat = slot.layout.count (k + 1) :=
      hwhole.shape.numElems k level hlevel
    rw [hcount, haccepted.granularity_eq]
  have hfits := @forall_mem_passExtents α slot.layout ⟨data, session.levelsOf slot⟩
    settings.granularity hstores
  rw [hasRoom_iff (extents_scan_of_accept hbuffer hcascade haccept), hfits, ← haccepted.inputLength,
    ← hwhole.count_one_mul]
  constructor
  · intro hall
    obtain ⟨level, _, hentry⟩ := Layout.level_isOk hwhole.numLevels_pos
    exact hblocks 0 level hentry ▸ hall 0 level hentry
  · intro hdata k level hentry
    rw [hblocks k level hentry]
    cases k with
    | zero => exact hdata
    | succ k =>
        have hk : k < slot.layout.numLevels :=
          Nat.lt_of_succ_lt (List.getElem?_eq_some_iff.1 hentry).1
        exact Nat.le_of_eq (hstores.size_eq hwhole hk).symm

end Room

/-! ## Served commands -/

section Served

variable [Inhabited α] {effect : Session α × Reply α}

theorem serve_eq_some {command : Command α} : session.serve command = some effect ↔
    session.HasRoom command ∧ session.perform command = effect := by
  unfold serve
  split <;> simp_all

theorem serve_eq_none {command : Command α} :
    session.serve command = none ↔ ¬session.HasRoom command := by
  unfold serve
  split <;> simp_all

/-- What is served keeps the storage of cascades sound, so it can be served from again. -/
theorem Sound.serve (h : session.Sound) {command : Command α}
    (hserve : session.serve command = some effect) : effect.1.Sound := by
  obtain ⟨_, rfl⟩ := serve_eq_some.1 hserve
  exact h.perform command

variable (hsound : session.Sound) (hbuffer : session.buffers.lookup buffer = some data)
  (hcascade : session.cascades.lookup cascade = some slot)
include hsound hbuffer hcascade

/-- A scan that is accepted and served accesses nothing outside of its buffers. -/
theorem inBounds_of_serve_scan {passes : List Pass} (hpasses : slot.layout.passes = .ok passes)
    (haccept : accept session.device config length slot.layout = .ok settings)
    (hserve : session.serve (.scan buffer length cascade op config) = some effect) (k : Nat) :
    InBounds settings passes ⟨data, session.levelsOf slot⟩ k := by
  have hextents := @extents_scan_of_accept α session buffer cascade data slot length op config settings
    hbuffer hcascade haccept
  have hslot := hsound cascade slot hcascade
  apply inBounds_of_passExtents hslot.built (stores_levelsOf hslot) hpasses
  exact (hasRoom_iff hextents).1 (serve_eq_some.1 hserve).1

/-- Neither do the unchecked passes of a cascade. -/
theorem inBounds_of_serve_launch {profiling : Bool} {passes : List Pass}
    (hpasses : slot.layout.passes = .ok passes)
    (hsettings : session.device.settings config = .ok settings)
    (hserve : session.serve (.launch buffer cascade op config profiling) = some effect) (k : Nat) :
    InBounds settings passes ⟨data, session.levelsOf slot⟩ k := by
  have hextents := @extents_launch α session buffer cascade data slot op config settings hbuffer hcascade
    profiling hsettings
  have hslot := hsound cascade slot hcascade
  apply inBounds_of_passExtents hslot.built (stores_levelsOf hslot) hpasses
  exact (hasRoom_iff hextents).1 (serve_eq_some.1 hserve).1

/-- A scan is turned down if it is accepted, and longer than its buffer. -/
theorem serve_scan_eq_none_iff : session.serve (.scan buffer length cascade op config) = none ↔
    (accept session.device config length slot.layout).isOk = true ∧ data.size < length.toNat := by
  rw [serve_eq_none]
  cases haccept : accept session.device config length slot.layout with
  | error error =>
      have hroom : session.HasRoom (.scan buffer length cascade op config) := by
        intro extents hextents
        rw [extents_scan_of_refuse hbuffer hcascade haccept] at hextents
        cases hextents
      exact ⟨fun h => absurd hroom h, nofun⟩
  | ok settings =>
      rw [hasRoom_scan_iff hbuffer hcascade (hsound cascade slot hcascade) haccept, Nat.not_le]
      exact ⟨fun h => ⟨rfl, h⟩, And.right⟩

/-- Four elements of a buffer of three. -/
example :
    let session : Session (BitVec 32) :=
      { device := { planeMin := 2, planeMax := 2 }, elementSize := 4, fill := 0,
        buffers := [("a", #[1, 2, 3])], cascades := [("c", ⟨⟨4, 2, [⟨2, 2⟩, ⟨1, 2⟩]⟩, none⟩)] }
    let config : Config := { granularity := 2, cubeDim := 2 }
    (session.serve (.scan "a" 4 "c" Operator.sum config)).isNone = true := by decide

end Served

end Session

end PrefixScan
