import PrefixScan.Proofs.Cascade.Sizes
import PrefixScan.Proofs.Scan.LastTotal

/-!
# What the levels carry

The cascade is scratch memory, but what a scan leaves in it is known.  A total of a level with another one
behind it stands for whole blocks of the input, through all the levels below, and it has been scanned with
the totals before it.  So it is the total of the input up to the end of its blocks.  The last total of a
level may stand for padding of the levels below.  There are none below level 0.

## Main definitions

* `Carries` — levels that hold totals of the start of the data.

## Main results

* `total_risen_of_lt` — what is before a total that is not the last of its level comes from the input.
* `Swept.getElem?_level` — the totals of a level after the sweeps.
* `hierarchical_carries` — the levels after an accepted scan.
-/

namespace PrefixScan.Scan

open PrefixScan.Cube Cascade Bracketing

variable {α : Type} [Inhabited α] {op : Operator α} {settings : Settings} {layout : Layout}

/-! ## Totals from the input -/

section Risen

variable (h : op.Lawful) (hgran : layout.granularity.toNat = settings.granularity.toNat)
variable (store : Store α) {k n : Nat}
include h hgran

/-- The totals of a level have the total of their blocks. -/
theorem total_risen_succ (hn : n ≤ layout.count (k + 1)) :
    op.total ((List.range n).map (risen op settings layout store (k + 1))) =
      op.total ((List.range (n * layout.granularity.toNat)).map (risen op settings layout store k)) := by
  have hrisen : (List.range n).map (risen op settings layout store (k + 1)) =
      (List.range n).map (blockTotal op settings (risen op settings layout store k)) := by
    apply List.map_congr_left
    intro b hb
    rw [risen, if_pos (Nat.lt_of_lt_of_le (List.mem_range.1 hb) hn)]
  rw [hrisen, total_blocks h, hgran]

/-- The elements of a risen buffer before the last have the total of the input that they stand for.  Level
by level, no padding is among them. -/
theorem total_risen_of_lt (hn : n < layout.count k) :
    op.total ((List.range n).map (risen op settings layout store k)) =
      op.total ((List.range (n * layout.granularity.toNat ^ k)).map (store.cell 0)) := by
  have hpos : 0 < layout.granularity.toNat := by
    rw [hgran]
    exact Nat.lt_of_lt_of_le Nat.zero_lt_two settings.two_le_granularity
  induction k generalizing n with
  | zero =>
      rw [Nat.pow_zero, Nat.mul_one]
      rfl
  | succ k ih =>
      have hbelow : n * layout.granularity.toNat < layout.count k := (lt_ceil_iff hpos).1 hn
      rw [total_risen_succ h hgran store (Nat.le_of_lt hn), ih hbelow, Nat.mul_assoc, ← Nat.pow_succ']

end Risen

/-! ## Levels after the sweeps -/

theorem Store.getElem?_level {store : Store α} {k b : Nat} (hb : b < (store.levels.getD k #[]).size) :
    (store.levels.getD k #[])[b]? = some (store.cell (k + 1) b) := by
  change _ = some ((store.levels.getD k #[]).getD b default)
  generalize store.levels.getD k #[] = buffer at hb
  rw [Array.getD_eq_getD_getElem?, Array.getElem?_eq_getElem hb]
  rfl

/-- The levels of a layout hold totals of the first `length` elements of the data.  A total of level `k`
stands for `granularity ^ (k + 1)` elements, and if it is not the last of its level, it is the total of all
elements up to those.  The last total of level 0 is that of all elements. -/
structure Carries (op : Operator α) (granularity length : Nat) (layout : Layout) (data : Array α)
    (levels : Array (Array α)) : Prop where
  inner : ∀ k level, layout.levels[k]? = some level → ∀ b, b + 1 < level.numElems.toNat →
    (b + 1) * granularity ^ (k + 1) < length ∧
    (levels.getD k #[])[b]? = some (op.total (data.toList.take ((b + 1) * granularity ^ (k + 1))))
  whole : ∃ level, layout.levels[0]? = some level ∧ level.numElems.toNat * granularity = length ∧
    (levels.getD 0 #[])[level.numElems.toNat - 1]? = some (op.total (data.toList.take length))

namespace Swept

variable {initial after : Store α} (hswept : Swept op settings layout initial 0 initial after)
variable (h : op.Lawful) (hgran : layout.granularity.toNat = settings.granularity.toNat)
variable (hsound : layout.Sound) (hlevels : layout.Stores initial.levels)
include hswept h hgran hsound hlevels

/-- A total of a level is scanned with those before it. -/
theorem getElem?_level {k b : Nat} (hk : k < layout.numLevels) (hb : b < layout.count (k + 1)) :
    (after.levels.getD k #[])[b]? =
      some (op.total ((List.range (b + 1)).map (risen op settings layout initial (k + 1)))) := by
  have hroom : layout.count (k + 1) ≤ layout.count (k + 1 + 1) * settings.granularity.toNat :=
    hgran ▸ count_le_mul hsound.whole.granularity_pos (k + 1)
  have hsize : (after.levels.getD k #[]).size =
      layout.count (k + 1 + 1) * settings.granularity.toNat :=
    hgran ▸ (hswept.stores hlevels).size_eq hsound.whole hk
  rw [Store.getElem?_level (by omega), hswept.cells (k + 1) (Nat.zero_le _) hk, settled]
  by_cases htop : k + 1 < layout.numLevels
  · have hgranularity := settings.two_le_granularity
    have hplane := settings.two_le_planeDim
    rw [if_pos ⟨htop, by omega⟩, h.eval_eq_total, items_ofScan (by omega) (by omega)]
  · -- the last level is not scanned, but it has one total
    have hlast : k + 1 = layout.numLevels := by omega
    have hone : layout.count (k + 1) = 1 := by rw [hlast, hsound.whole.count_numLevels]
    obtain rfl : b = 0 := by omega
    rw [if_neg fun hboth => htop hboth.1]
    exact congrArg some (h.total_singleton _).symm

variable (hdata : layout.inputLength.toNat ≤ initial.data.size)
include hdata

/-- A total with another one behind it is that of the input up to the end of its blocks. -/
theorem carry_eq {k b : Nat} (hk : k < layout.numLevels) (hb : b + 1 < layout.count (k + 1)) :
    (after.levels.getD k #[])[b]? = some (op.total
      (initial.data.toList.take ((b + 1) * layout.granularity.toNat ^ (k + 1)))) := by
  have hstart : (b + 1) * layout.granularity.toNat ^ (k + 1) < layout.inputLength.toNat :=
    (lt_count_iff hsound.whole.granularity_pos).1 hb
  rw [hswept.getElem?_level h hgran hsound hlevels hk (by omega),
    total_risen_of_lt h hgran initial hb, ← map_getD_take _ (by omega)]
  rfl

/-- The last total of level 0 is that of the whole input. -/
theorem carry_last :
    (after.levels.getD 0 #[])[layout.count 1 - 1]? =
      some (op.total (initial.data.toList.take layout.inputLength.toNat)) := by
  have hpos := hsound.whole.count_pos 1
  have hlast : layout.count 1 - 1 + 1 = layout.count 1 := by omega
  have hin : layout.count 1 - 1 < layout.count (0 + 1) := Nat.sub_one_lt_of_lt hpos
  rw [hswept.getElem?_level h hgran hsound hlevels hsound.whole.numLevels_pos hin, hlast,
    total_risen_succ h hgran initial (Nat.le_refl _), hsound.whole.count_one_mul,
    ← map_getD_take _ hdata]
  rfl

theorem carries :
    Carries op layout.granularity.toNat layout.inputLength.toNat layout initial.data after.levels := by
  constructor
  · intro k level hlevel b hb
    obtain ⟨hk, _⟩ := List.getElem?_eq_some_iff.1 hlevel
    rw [hsound.shape.numElems k level hlevel] at hb
    exact ⟨(lt_count_iff hsound.whole.granularity_pos).1 hb,
      hswept.carry_eq h hgran hsound hlevels hdata hk hb⟩
  · obtain ⟨level, _, hlevel⟩ := Layout.level_isOk hsound.whole.numLevels_pos
    have hcount : level.numElems.toNat = layout.count 1 := hsound.shape.numElems 0 level hlevel
    refine ⟨level, hlevel, ?_, ?_⟩
    · rw [hcount, hsound.whole.count_one_mul]
    · rw [hcount]
      exact hswept.carry_last h hgran hsound hlevels hdata

end Swept

/-! ## Accepted scans -/

/-- Whatever the cascade holds, an accepted scan of integers leaves the totals of the start of the data in
its levels. -/
theorem hierarchical_carries {signed : Bool} {bytes : Nat}
    {op : Operator (ElementType.int signed bytes).Carrier}
    (hop : op = (ElementType.int signed bytes).sum ∨ op = (ElementType.int signed bytes).prod)
    (fill : (ElementType.int signed bytes).Carrier) {device : Device} {config : Config}
    {length : Size} {layout : Layout} (hplanes : device.planes = true)
    (hdim : device.planeMin = device.planeMax) (hconfig : config.validate device.planeMin = .ok ())
    (hcheck : checkLength length config.granularity = .ok ())
    (hlayout : Layout.ofLength length (config.granularity.setWidth 64) = .ok layout)
    (hreach : length.toNat ≤ 2 ^ 32)
    (hfits : config.granularity.toNat + config.cubeDim.toNat ≤ 2 ^ 32)
    {data : Array (ElementType.int signed bytes).Carrier} (hdata : length.toNat ≤ data.size)
    {levels : Array (Array (ElementType.int signed bytes).Carrier)} (hlevels : layout.Stores levels) :
    ∃ submission after,
      hierarchical op fill device config length layout ⟨data, levels⟩ = .ok submission ∧
      submission.result = .ok after ∧
      Carries op config.granularity.toNat length.toNat layout data after.levels := by
  obtain ⟨settings, haccept⟩ := accept_isOk hplanes hdim hconfig hcheck hlayout
  have hbuilt := Layout.built_of_ofLength hlayout
  have haccepted := accepted_of_accept haccept
  have hready : Ready config length layout ⟨data, levels⟩ := ⟨hbuilt, hlevels, hdata, hreach, hfits⟩
  obtain ⟨after, hrun, hswept⟩ := launch_swept op fill hready haccept
  have hcarries := hswept.carries (ElementType.lawful hop) haccepted.granularity_eq
    (haccepted.sound hbuilt hreach) hlevels (haccepted.inputLength ▸ hdata)
  rw [haccepted.inputLength, haccepted.layoutGranularity, toNat_setWidth] at hcarries
  exact ⟨_, after, hierarchical_of_accept op fill haccept _, hrun, hcarries⟩

/-- Six numbers in blocks of two, with rubbish in the cascade: the second total of level 0 is that of four. -/
theorem hierarchical_carries_six :
    ∃ submission after, hierarchical (ElementType.int false 4).sum 9 { planeMin := 2, planeMax := 2 }
        { granularity := 2, cubeDim := 2 } 6 ⟨6, 2, [⟨3, 4⟩, ⟨2, 2⟩, ⟨1, 2⟩]⟩
        ⟨#[1, 2, 3, 4, 5, 6], #[#[7, 7, 7, 7], #[7, 7], #[7, 7]]⟩ = .ok submission ∧
      submission.result = .ok after ∧ (after.levels.getD 0 #[])[1]? = some (10 : BitVec 32) := by
  obtain ⟨submission, after, hrun, hresult, hcarries⟩ := @hierarchical_carries false 4
    (ElementType.int false 4).sum (.inl rfl) (9 : BitVec 32) { planeMin := 2, planeMax := 2 }
    { granularity := 2, cubeDim := 2 } 6 ⟨6, 2, [⟨3, 4⟩, ⟨2, 2⟩, ⟨1, 2⟩]⟩ rfl rfl (by decide)
    (by decide) (by cbv) (by decide) (by decide) #[1, 2, 3, 4, 5, 6] (by decide)
    #[#[7, 7, 7, 7], #[7, 7], #[7, 7]] (Layout.stores_of_sizes rfl)
  exact ⟨submission, after, hrun, hresult, (hcarries.inner 0 ⟨3, 4⟩ rfl 1 (by decide)).2⟩

end PrefixScan.Scan
