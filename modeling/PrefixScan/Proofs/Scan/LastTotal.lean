import PrefixScan.Proofs.Cascade.Padding
import PrefixScan.Proofs.Scan.Inclusive
import PrefixScan.Proofs.Scan.Reach

/-!
# What the last level holds

The last level of a cascade is there for the combination of the whole input.  Every other level is
reduced together with its padding, which no pass has written, so the last level holds the combination of
the input and of what was left in the padding.  It is the total of the input whatever was left only if
there is no padding, and only if 32-bit positions reach all of the input.

## Main definitions

* `Store.lastTotal` — what the last level holds.
* `LeavesTotal` — scans that succeed and leave a given value there.

## Main results

* `launch_lastTotal` — the last level after the passes of an accepted scan.
* `reach_of_leavesTotal`, `full_of_leavesTotal` — what it takes to hold the total of every input.
* `hierarchical_last_total` — when the last level holds the total of the input.
-/

namespace PrefixScan.Scan

open PrefixScan.Cube Cascade Bracketing

variable {α : Type} [Inhabited α] {op : Operator α} {fill : α} {settings : Settings}
variable {layout : Layout} {store : Store α}

/-! ## Totals of levels -/

/-- What the last level holds. -/
def Store.lastTotal (store : Store α) : Option α := store.levels.back?.bind (·[0]?)

theorem Store.lastTotal_eq_cell {top : Nat} (hlevels : store.levels.size = top + 1)
    (hsize : 0 < (store.levels.getD top #[]).size) :
    store.lastTotal = some (store.cell (top + 1) 0) := by
  have hback : store.levels.back? = some (store.levels.getD top #[]) := by
    rw [Array.back?, hlevels, Nat.add_sub_cancel, Array.getD_eq_getD_getElem?,
      Array.getElem?_eq_getElem (by omega)]
    rfl
  rw [Store.lastTotal, hback, Option.bind_some, Store.cell, Store.source]
  generalize store.levels.getD top #[] = buffer at hsize
  simp [Array.getD_eq_getD_getElem?, hsize]

theorem map_getD_take (a : Array α) {n : Nat} (h : n ≤ a.size) :
    (List.range n).map (a.getD · default) = a.toList.take n := by
  apply List.ext_getElem
  · simp [h]
  · intro i hi _
    have hin : i < a.size := by
      simp at hi
      omega
    simp [Array.getD_eq_getD_getElem?, hin]

theorem map_getD_drop (a : Array α) (start : Nat) :
    (List.range (a.size - start)).map (fun i => a.getD (start + i) default) =
      a.toList.drop start := by
  apply List.ext_getElem
  · simp
  · intro i hi _
    have hin : start + i < a.size := by
      simp at hi
      omega
    simp [Array.getD_eq_getD_getElem?, hin]

omit [Inhabited α] in
/-- The totals of blocks have the total of the blocks. -/
theorem total_blocks (h : op.Lawful) (x : Nat → α) (blocks : Nat) :
    op.total ((List.range blocks).map (blockTotal op settings x)) =
      op.total ((List.range (blocks * settings.granularity.toNat)).map x) := by
  have hgran := settings.two_le_granularity
  have hplane := settings.two_le_planeDim
  have hlast : settings.granularity.toNat - 1 + 1 = settings.granularity.toNat := by omega
  induction blocks with
  | zero => simp
  | succ blocks ih =>
      have hblock : blockTotal op settings x blocks =
          op.total ((List.range settings.granularity.toNat).map fun j =>
            x (blocks * settings.granularity.toNat + j)) := by
        rw [blockTotal, h.eval_eq_total, items_ofCube (by omega), hlast]
      calc op.total ((List.range (blocks + 1)).map (blockTotal op settings x))
          = op.combine (op.total ((List.range (blocks * settings.granularity.toNat)).map x))
              (blockTotal op settings x blocks) := by
            rw [List.range_succ, List.map_append, h.total_append, ih, List.map_singleton,
              h.total_singleton]
        _ = op.total ((List.range ((blocks + 1) * settings.granularity.toNat)).map x) := by
            rw [hblock, Nat.succ_mul, List.range_add, List.map_append, h.total_append,
              List.map_map]
            rfl

/-- What is reduced from a level: the totals of the level below, then the padding. -/
theorem map_risen (hgran : layout.granularity.toNat = settings.granularity.toNat)
    (hsound : layout.Sound) (hlevels : layout.Stores store.levels) {k : Nat}
    (hk : k < layout.numLevels) :
    (List.range (layout.count (k + 2) * settings.granularity.toNat)).map
        (risen op settings layout store (k + 1)) =
      (List.range (layout.count (k + 1))).map
          (blockTotal op settings (risen op settings layout store k)) ++
        layout.padding store.levels k := by
  have hsize : (store.levels.getD k #[]).size =
      layout.count (k + 2) * settings.granularity.toNat :=
    hgran ▸ hlevels.size_eq hsound.whole hk
  have hle : layout.count (k + 1) ≤ layout.count (k + 2) * settings.granularity.toNat :=
    hgran ▸ count_le_mul hsound.whole.granularity_pos (k + 1)
  have hsplit : layout.count (k + 2) * settings.granularity.toNat = layout.count (k + 1) +
      ((store.levels.getD k #[]).size - layout.count (k + 1)) := by omega
  rw [hsplit, List.range_add, List.map_append, List.map_map, Layout.padding, ← map_getD_drop]
  congr 1
  · apply List.map_congr_left
    intro b hb
    rw [risen, if_pos (List.mem_range.1 hb)]
  · apply List.map_congr_left
    intro i _
    rw [Function.comp_apply, risen, if_neg (by omega)]
    rfl

/-- Level by level, the padding is added to the total of the input. -/
theorem total_risen (h : op.Lawful) (hgran : layout.granularity.toNat = settings.granularity.toNat)
    (hsound : layout.Sound) (hlevels : layout.Stores store.levels)
    (hdata : layout.inputLength.toNat ≤ store.data.size) {k : Nat} (hk : k ≤ layout.numLevels) :
    op.total ((List.range (layout.count (k + 1) * settings.granularity.toNat)).map
        (risen op settings layout store k)) =
      op.total (store.data.toList.take layout.inputLength.toNat ++
        (List.range k).flatMap (layout.padding store.levels)) := by
  induction k with
  | zero =>
      rw [← hgran, hsound.whole.count_one_mul, List.range_zero, List.flatMap_nil, List.append_nil,
        ← map_getD_take _ hdata]
      rfl
  | succ k ih =>
      rw [map_risen hgran hsound hlevels hk, h.total_append, total_blocks h, ih (by omega),
        ← h.total_append, List.append_assoc, List.range_succ, List.flatMap_append,
        List.flatMap_singleton]

/-- The last level after the sweeps. -/
theorem Swept.lastTotal_eq (h : op.Lawful)
    (hgran : layout.granularity.toNat = settings.granularity.toNat) (hsound : layout.Sound)
    {initial after : Store α} (hlevels : layout.Stores initial.levels)
    (hdata : layout.inputLength.toNat ≤ initial.data.size)
    (hswept : Swept op settings layout initial 0 initial after) :
    after.lastTotal = some (op.total (initial.data.toList.take layout.inputLength.toNat ++
      layout.leftover initial.levels)) := by
  obtain ⟨top, htop⟩ := Nat.exists_eq_add_one.2 hsound.whole.numLevels_pos
  have hstores := hswept.stores hlevels
  have hsize : 0 < (after.levels.getD top #[]).size := by
    rw [hstores.size_eq hsound.whole (by omega)]
    exact Nat.mul_pos (hsound.whole.count_pos _) hsound.whole.granularity_pos
  have hcell := Store.lastTotal_eq_cell (hstores.1.trans htop) hsize
  have hcount : layout.count (top + 1) = 1 := htop ▸ hsound.whole.count_numLevels
  have htotal : after.cell (top + 1) 0 =
      op.total ((List.range (layout.count (top + 1))).map
        (blockTotal op settings (risen op settings layout initial top))) := by
    rw [hswept.cells (top + 1) (Nat.zero_le _) (by omega), settled, if_neg (by omega), risen,
      if_pos (hsound.whole.count_pos _), hcount]
    exact (h.total_singleton _).symm
  rw [hcell, htotal, total_blocks h, total_risen h hgran hsound hlevels hdata (by omega),
    Layout.leftover, htop, Nat.add_sub_cancel]

/-- After an accepted scan the last level holds the total of the input and the padding. -/
theorem launch_lastTotal (h : op.Lawful) (fill : α) {device : Device} {config : Config}
    {length : Size} (hready : Ready config length layout store)
    (haccept : accept device config length layout = .ok settings) :
    ∃ after, (launch op fill device ⟨config.profiling⟩ settings length layout store).result =
        .ok after ∧
      after.lastTotal = some (op.total (store.data.toList.take length.toNat ++
        layout.leftover store.levels)) := by
  have haccepted := accepted_of_accept haccept
  have hsound := haccepted.sound hready.built hready.reach
  obtain ⟨after, hrun, hswept⟩ := launch_swept op fill hready haccept
  refine ⟨after, hrun, ?_⟩
  rw [hswept.lastTotal_eq h haccepted.granularity_eq hsound hready.stores
    (haccepted.inputLength ▸ hready.data), haccepted.inputLength]

/-- The scan succeeds, and then the last level holds `x`. -/
def LeavesTotal (op : Operator α) (fill : α) (device : Device) (config : Config) (length : Size)
    (layout : Layout) (store : Store α) (x : α) : Prop :=
  ∃ submission after, hierarchical op fill device config length layout store = .ok submission ∧
    submission.result = .ok after ∧ after.lastTotal = some x

theorem LeavesTotal.unique {device : Device} {config : Config} {length : Size} {x y : α}
    (hx : LeavesTotal op fill device config length layout store x)
    (hy : LeavesTotal op fill device config length layout store y) : x = y := by
  obtain ⟨submission, after, hrun, hresult, hx⟩ := hx
  obtain ⟨submission', after', hrun', hresult', hy⟩ := hy
  cases hrun.symm.trans hrun'
  cases hresult.symm.trans hresult'
  exact Option.some.inj (hx.symm.trans hy)

/-- An element out of reach makes no difference to the last level. -/
theorem LeavesTotal.setData {device : Device} {config : Config} {length : Size} {y : α}
    (h : LeavesTotal op fill device config length layout store y) {i : Nat} (hi : 2 ^ 32 ≤ i) (x : α) :
    LeavesTotal op fill device config length layout (store.setData i x) y := by
  obtain ⟨submission, after, hrun, hresult, htotal⟩ := h
  cases haccept : accept device config length layout with
  | error error =>
      rw [hierarchical_of_refuse op fill haccept] at hrun
      cases hrun
  | ok settings =>
      rw [hierarchical_of_accept op fill haccept] at hrun
      cases hrun
      refine ⟨_, after.setData i x, hierarchical_of_accept op fill haccept _, ?_, htotal⟩
      rw [launch_setData hi, hresult]
      rfl

/-- After an accepted scan within reach the last level holds the total of the input and the padding. -/
theorem leavesTotal_leftover (h : op.Lawful) (fill : α) {device : Device} {config : Config}
    {length : Size} (hready : Ready config length layout store)
    (haccept : accept device config length layout = .ok settings) :
    LeavesTotal op fill device config length layout store
      (op.total (store.data.toList.take length.toNat ++ layout.leftover store.levels)) := by
  obtain ⟨after, hresult, htotal⟩ := launch_lastTotal h fill hready haccept
  exact ⟨_, after, hierarchical_of_accept op fill haccept _, hresult, htotal⟩

/-! ## Lengths -/

section Integers

variable {signed : Bool} {bytes : Nat} (hbytes : 0 < bytes)
  {op : Operator (ElementType.int signed bytes).Carrier}
  (hop : op = (ElementType.int signed bytes).sum ∨ op = (ElementType.int signed bytes).prod)
  (fill : (ElementType.int signed bytes).Carrier) {device : Device} {config : Config} {length : Size}
  {layout : Layout}
include hbytes hop

section Always

variable (halways : ∀ data levels, length.toNat ≤ data.size → layout.Stores levels →
  LeavesTotal op fill device config length layout ⟨data, levels⟩
    (op.total (data.toList.take length.toNat)))
include halways

/-- The last level can hold the total of every input only if the length is within reach. -/
theorem reach_of_leavesTotal : length.toNat ≤ 2 ^ 32 := by
  have hlawful := ElementType.lawful hop
  by_contra hlong
  have hlast : 2 ^ 32 < length.toNat := Nat.not_le.1 hlong
  obtain ⟨z, hz⟩ := ElementType.exists_ne_identity hbytes hop
  let data := Array.replicate length.toNat op.identity
  let changed := data.setIfInBounds (2 ^ 32) z
  have hstores := layout.stores_fresh fill
  have hdata : length.toNat ≤ data.size := by simp [data]
  have hchanged : length.toNat ≤ changed.size := by simp [changed, data]
  have htotal : op.total (changed.toList.take length.toNat) = z := by
    rw [Array.toList_setIfInBounds, Array.toList_replicate, List.take_of_length_le (by simp),
      hlawful.total_replicate_set hlast]
  -- the scan cannot tell the two inputs apart
  have hsame := ((halways data _ hdata hstores).setData (Nat.le_refl _) z).unique
    (halways changed _ hchanged hstores)
  rw [hlawful.total_take_replicate, htotal] at hsame
  exact hz hsame.symm

/-- Within reach, it does so for every content of the cascade only if no level has padding. -/
theorem full_of_leavesTotal {settings : Settings} (hbuilt : layout.Built)
    (hfits : config.granularity.toNat + config.cubeDim.toNat ≤ 2 ^ 32)
    (haccept : accept device config length layout = .ok settings) (hreach : length.toNat ≤ 2 ^ 32) :
    layout.Full := by
  have hlawful := ElementType.lawful hop
  have hsound := (accepted_of_accept haccept).sound hbuilt hreach
  by_contra hnot
  -- an input that makes no difference shows what is left in the padding
  obtain ⟨z, hz⟩ := ElementType.exists_ne_identity hbytes hop
  obtain ⟨levels, hlevels, hleftover⟩ := Layout.exists_total_padding hlawful hsound hnot z
  have hsize : length.toNat ≤ (Array.replicate length.toNat op.identity).size := by simp
  have hready : Ready config length layout ⟨Array.replicate length.toNat op.identity, levels⟩ :=
    ⟨hbuilt, hlevels, hsize, hreach, hfits⟩
  have hsame := (leavesTotal_leftover hlawful fill hready haccept).unique
    (halways _ levels hsize hlevels)
  rw [hlawful.total_append, hlawful.total_take_replicate, hleftover, hlawful.identity_combine] at hsame
  exact hz hsame

end Always

/-- Whatever the cascade holds, a scan of integers within reach leaves in the last level the total of the
input and of what was left in the padding.  So the last level holds the total of the input for every input
and every content of the cascade if the length is within reach and a power of the granularity, and for no
other length. -/
theorem hierarchical_last_total (hplanes : device.planes = true)
    (hdim : device.planeMin = device.planeMax) (hconfig : config.validate device.planeMin = .ok ())
    (hcheck : checkLength length config.granularity = .ok ())
    (hlayout : Layout.ofLength length (config.granularity.setWidth 64) = .ok layout)
    (hfits : config.granularity.toNat + config.cubeDim.toNat ≤ 2 ^ 32) :
    (length.toNat ≤ 2 ^ 32 → ∀ data levels, length.toNat ≤ data.size → layout.Stores levels →
      LeavesTotal op fill device config length layout ⟨data, levels⟩
        (op.total (data.toList.take length.toNat ++ layout.leftover levels))) ∧
    ((∀ data levels, length.toNat ≤ data.size → layout.Stores levels →
      LeavesTotal op fill device config length layout ⟨data, levels⟩
        (op.total (data.toList.take length.toNat))) ↔
      length.toNat ≤ 2 ^ 32 ∧ ∃ m, length.toNat = config.granularity.toNat ^ m) := by
  have hlawful := ElementType.lawful hop
  obtain ⟨settings, haccept⟩ := accept_isOk hplanes hdim hconfig hcheck hlayout
  have hbuilt := Layout.built_of_ofLength hlayout
  have haccepted := accepted_of_accept haccept
  have hpower : length.toNat ≤ 2 ^ 32 →
      (layout.Full ↔ ∃ m, length.toNat = config.granularity.toNat ^ m) := by
    intro hreach
    have hfull := Layout.full_iff (haccepted.sound hbuilt hreach)
    rwa [haccepted.inputLength, haccepted.layoutGranularity, toNat_setWidth] at hfull
  have hleaves : length.toNat ≤ 2 ^ 32 → ∀ data levels, length.toNat ≤ data.size →
      layout.Stores levels → LeavesTotal op fill device config length layout ⟨data, levels⟩
        (op.total (data.toList.take length.toNat ++ layout.leftover levels)) := by
    intro hreach data levels hdata hlevels
    exact leavesTotal_leftover hlawful fill ⟨hbuilt, hlevels, hdata, hreach, hfits⟩ haccept
  refine ⟨hleaves, ?_⟩
  constructor
  · intro halways
    have hreach := reach_of_leavesTotal hbytes hop fill halways
    have hfull := full_of_leavesTotal hbytes hop fill halways hbuilt hfits haccept hreach
    exact ⟨hreach, (hpower hreach).1 hfull⟩
  · rintro ⟨hreach, hm⟩ data levels hdata hlevels
    have hfull := (hpower hreach).2 hm
    have hall := hleaves hreach data levels hdata hlevels
    rwa [hfull.leftover_eq_nil (haccepted.sound hbuilt hreach) hlevels, List.append_nil] at hall

end Integers

/-- Four numbers, with rubbish in the cascade. -/
theorem hierarchical_last_total_four :
    LeavesTotal (ElementType.int false 4).sum 9 { planeMin := 2, planeMax := 2 }
      { granularity := 2, cubeDim := 2 } 4 ⟨4, 2, [⟨2, 2⟩, ⟨1, 2⟩]⟩
      ⟨#[1, 2, 3, 4, 5], #[#[7, 7], #[7, 7]]⟩ (10 : BitVec 32) := by
  obtain ⟨_, hpower⟩ := @hierarchical_last_total false 4 (by decide) (ElementType.int false 4).sum
    (.inl rfl) (9 : BitVec 32) { planeMin := 2, planeMax := 2 } { granularity := 2, cubeDim := 2 } 4
    ⟨4, 2, [⟨2, 2⟩, ⟨1, 2⟩]⟩ rfl rfl (by decide) (by decide) (by cbv) (by decide)
  exact hpower.2 ⟨by decide, 2, rfl⟩ #[1, 2, 3, 4, 5] #[#[7, 7], #[7, 7]] (by decide)
    (Layout.stores_of_sizes rfl)

/-- After a product of six numbers with a zero at the end, the product of six ones leaves zero in the last
level of the same cascade.  Of `2 ^ 41` elements and default settings, which are accepted, the first pass
reduces none, and the last level does not hold the sum of every input. -/
theorem last_total_missed :
    ((∃ submission : Submission (Store (BitVec 32)),
      hierarchical Operator.prod 0 { planeMin := 2, planeMax := 2 }
        { granularity := 2, cubeDim := 2 } 6 ⟨6, 2, [⟨3, 4⟩, ⟨2, 2⟩, ⟨1, 2⟩]⟩
        ⟨#[1, 1, 1, 1, 1, 0], #[#[0, 0, 0, 0], #[0, 0], #[0, 0]]⟩ = .ok submission ∧
      submission.result = .ok ⟨#[1, 1, 1, 1, 1, 0], #[#[1, 1, 0, 0], #[1, 0], #[0, 0]]⟩) ∧
    LeavesTotal Operator.prod 0 { planeMin := 2, planeMax := 2 }
      { granularity := 2, cubeDim := 2 } 6 ⟨6, 2, [⟨3, 4⟩, ⟨2, 2⟩, ⟨1, 2⟩]⟩
      ⟨#[1, 1, 1, 1, 1, 1], #[#[1, 1, 0, 0], #[1, 0], #[0, 0]]⟩ (0 : BitVec 32) ∧
    Operator.prod.total [1, 1, 1, 1, 1, 1] = (1 : BitVec 32)) ∧
    ∃ layout settings rest, Layout.ofLength 0x20000000000 512 = .ok layout ∧
      accept { planeMin := 32, planeMax := 32 } Config.standard 0x20000000000 layout = .ok settings ∧
      layout.passes = .ok (⟨.reduce, 0, 0⟩ :: rest) ∧
      ¬∀ (data : Array (BitVec 32)) levels, 2 ^ 41 ≤ data.size → layout.Stores levels →
        LeavesTotal (ElementType.int false 4).sum (0 : BitVec 32) { planeMin := 32, planeMax := 32 }
          Config.standard 0x20000000000 layout ⟨data, levels⟩
          ((ElementType.int false 4).sum.total (data.toList.take (2 ^ 41))) := by
  constructor
  · refine ⟨⟨_, rfl, ?_⟩, ⟨_, ⟨#[1, 1, 1, 1, 1, 1], #[#[1, 1, 1, 0], #[1, 0], #[0, 0]]⟩, rfl, ?_, ?_⟩, ?_⟩
    · decide +kernel
    · decide +kernel
    · rfl
    · rfl
  · refine ⟨⟨0x20000000000, 512, [⟨0x100000000, 0x100000000⟩, ⟨0x800000, 0x800000⟩, ⟨0x4000, 0x4000⟩,
      ⟨32, 512⟩, ⟨1, 512⟩]⟩, _, _, by cbv, rfl, rfl, ?_⟩
    intro halways
    have hreach : (0x20000000000 : Size).toNat ≤ 2 ^ 32 :=
      reach_of_leavesTotal (show 0 < 4 by decide) (.inl rfl) 0 halways
    exact absurd hreach (by decide)

end PrefixScan.Scan
