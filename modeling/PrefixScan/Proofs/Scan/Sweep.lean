import PrefixScan.Proofs.Cascade.Shape
import PrefixScan.Proofs.Scan.Pass

/-!
# Sweeps over a cascade

Seen from level `k`, a scan reduces buffer `k` into the level, scans the level by the passes above it,
and expands it.  By the time it is scanned the level holds block totals where there are blocks, and
padding of unknown content behind them.  The padding stays behind: what a pass makes of an item depends
on items before it only, so no total that is expanded has seen padding.

## Main results

* `sweep_run` — what the passes over the levels from `k` on make of every buffer.
-/

namespace PrefixScan.Scan

open PrefixScan.Cube Cascade Bracketing

variable {α : Type} [Inhabited α] {op : Operator α} {fill : α} {settings : Settings}
variable {layout : Layout}

/-- The content of a cell of a buffer of the store. -/
def Store.cell (store : Store α) (j i : Nat) : α := (store.source j).getD i default

/-- What buffer `k` holds when it is reduced: the data for buffer 0, and otherwise the block totals of
the buffer before, followed by what the buffer held initially. -/
def risen (op : Operator α) (settings : Settings) (layout : Layout) (store : Store α) :
    (k : Nat) → Nat → α
  | 0, i => store.cell 0 i
  | k + 1, b =>
    if b < layout.count (k + 1) then blockTotal op settings (risen op settings layout store k) b
    else store.cell (k + 1) b

/-- What is left of a buffer after the sweeps: the scan of what it held when it was reduced, as far as
there are blocks. -/
def settled (op : Operator α) (settings : Settings) (layout : Layout) (store : Store α)
    (k i : Nat) : α :=
  if k < layout.numLevels ∧ i < layout.count (k + 1) * settings.granularity.toNat then
    (ofScan settings.planeDim.toNat settings.granularity.toNat i).eval op.combine
      (risen op settings layout store k)
  else risen op settings layout store k i

omit [Inhabited α] in
/-- A scanned item, from the scan of the block totals and the scan of its block. -/
theorem eval_ofScan (x : Nat → α) (i : Nat) :
    (ofScan settings.planeDim.toNat settings.granularity.toNat i).eval op.combine x =
      if settings.granularity.toNat ≤ i then
        op.combine
          ((ofScan settings.planeDim.toNat settings.granularity.toNat
            (i / settings.granularity.toNat - 1)).eval op.combine (blockTotal op settings x))
          (blockScanned op settings x i)
      else blockScanned op settings x i := by
  have hgran := settings.two_le_granularity
  split
  · rename_i hle
    rw [ofScan, eval_blockwise_of_le x (by omega) hle]
    rfl
  · rename_i hlt
    rw [ofScan, blockwise_of_lt (by omega), blockScanned, Nat.mod_eq_of_lt (by omega),
      Nat.div_eq_of_lt (by omega)]
    simp only [Nat.zero_mul, Nat.zero_add]

/-- The store has a buffer for each level of a layout, long enough for the blocks of the level. -/
structure Store.Fits (layout : Layout) (store : Store α) : Prop where
  levels : store.levels.size = layout.numLevels
  sizes : ∀ j ≤ layout.numLevels,
    layout.count (j + 1) * layout.granularity.toNat ≤ (store.source j).size

/-- The store after the sweeps over the levels from `k` on, in terms of a store `initial` from before
the scan. -/
structure Swept (op : Operator α) (settings : Settings) (layout : Layout) (initial : Store α)
    (k : Nat) (store after : Store α) : Prop where
  levels : after.levels.size = store.levels.size
  sizes : ∀ j, (after.source j).size = (store.source j).size
  below : ∀ j < k, after.source j = store.source j
  cells : ∀ j, k ≤ j → j ≤ layout.numLevels → ∀ i,
    after.cell j i = settled op settings layout initial j i

/-! ## One level -/

/-- Buffer `k` after the reduction into level `k` is the scan of what it held by blocks. -/
theorem settled_of_top (h : layout.Sound) {initial : Store α} {k : Nat}
    (hk : k + 1 = layout.numLevels) (i : Nat) :
    settled op settings layout initial k i =
      if i < layout.count (k + 1) * settings.granularity.toNat then
        blockScanned op settings (risen op settings layout initial k) i
      else risen op settings layout initial k i := by
  have htop : layout.count (k + 1) ≤ 1 := hk ▸ h.shape.top
  have hle : layout.count (k + 1) * settings.granularity.toNat ≤
      1 * settings.granularity.toNat := Nat.mul_le_mul_right _ htop
  rw [settled]
  by_cases hi : i < layout.count (k + 1) * settings.granularity.toNat
  · rw [if_pos ⟨by omega, hi⟩, if_pos hi, eval_ofScan, if_neg (by omega)]
  · rw [if_neg fun hin => hi hin.2, if_neg hi]

/-- A buffer whose level is expanded is combined with the scan of the level. -/
theorem settled_of_expanded (hgran : layout.granularity.toNat = settings.granularity.toNat)
    {initial : Store α} {k : Nat} (hk : k + 1 < layout.numLevels) (i : Nat) :
    settled op settings layout initial k i =
      if i < layout.count (k + 1) * settings.granularity.toNat then
        if settings.granularity.toNat ≤ i then
          op.combine
            (settled op settings layout initial (k + 1) (i / settings.granularity.toNat - 1))
            (blockScanned op settings (risen op settings layout initial k) i)
        else blockScanned op settings (risen op settings layout initial k) i
      else risen op settings layout initial k i := by
  have htwo := settings.two_le_granularity
  have hplane := settings.two_le_planeDim
  rw [settled]
  by_cases hi : i < layout.count (k + 1) * settings.granularity.toNat
  · rw [if_pos ⟨by omega, hi⟩, if_pos hi, eval_ofScan]
    split
    · rename_i hlater
      have hone : 1 ≤ i / settings.granularity.toNat :=
        (Nat.one_le_div_iff (by omega)).2 hlater
      have hquot : i / settings.granularity.toNat < layout.count (k + 1) :=
        (Nat.div_lt_iff_lt_mul (by omega)).2 hi
      have hpadded : layout.count (k + 1) ≤
          layout.count (k + 1 + 1) * settings.granularity.toNat :=
        hgran ▸ count_le_mul (by omega) (k + 1)
      rw [settled, if_pos ⟨hk, by omega⟩]
      congr 1
      -- no item before this one is in the padding of the level
      apply eval_congr
      intro b hb
      rw [items_ofScan (by omega) (by omega), List.mem_range] at hb
      rw [risen, if_pos (by omega)]
    · rfl
  · rw [if_neg fun hin => hi hin.2, if_neg hi]

section Level

variable (op fill) (h : layout.Sound)
variable (hgran : layout.granularity.toNat = settings.granularity.toNat)
include h hgran

theorem reduction_run {store : Store α} (hfits : store.Fits layout)
    (hfit : settings.granularity.toNat + settings.cubeDim.toNat ≤ 2 ^ 32) {k : Nat}
    (hk : k < layout.numLevels) :
    ∃ after, (runPass op fill settings (layout.reduction k) store).result = .ok after ∧
      Passed k (BlocksReduced op settings · (layout.count (k + 1))) store after := by
  have hcount : (BitVec.ofNat 32 (layout.count (k + 1))).toNat = layout.count (k + 1) := by
    rw [BitVec.toNat_ofNat, Nat.mod_eq_of_lt (h.count_lt k)]
  have hword : layout.count (k + 1) * settings.granularity.toNat ≤ 2 ^ 32 :=
    hgran ▸ Nat.le_trans (h.whole.count_mul_le k) h.fits
  have hsize := hgran ▸ hfits.sizes k (Nat.le_of_lt hk)
  have hrun := reduction_result op fill hfit (hfits.levels ▸ hk)
    (hcount.symm ▸ hword) (hcount.symm ▸ hsize)
  rw [hcount] at hrun
  exact hrun

theorem expansion_run {store : Store α} (hfits : store.Fits layout)
    (hfit : settings.granularity.toNat + settings.cubeDim.toNat ≤ 2 ^ 32) {k : Nat}
    (hk : k < layout.numLevels) :
    ∃ after, (runPass op fill settings (layout.expansion k) store).result = .ok after ∧
      Passed k (BlocksExpanded op settings · (layout.count (k + 1) - 1)) store after := by
  have hpos := h.whole.count_pos (k + 1)
  have hlt := h.count_lt k
  have hcount : (BitVec.ofNat 32 (layout.count (k + 1) - 1)).toNat = layout.count (k + 1) - 1 := by
    rw [BitVec.toNat_ofNat, Nat.mod_eq_of_lt (by omega)]
  have hblocks : (BitVec.ofNat 32 (layout.count (k + 1) - 1)).toNat + 1 = layout.count (k + 1) := by
    omega
  have hword : layout.count (k + 1) * settings.granularity.toNat ≤ 2 ^ 32 :=
    hgran ▸ Nat.le_trans (h.whole.count_mul_le k) h.fits
  have hsize := hgran ▸ hfits.sizes k (Nat.le_of_lt hk)
  have hrun := expansion_result op fill hfit (hfits.levels ▸ hk)
    (hblocks.symm ▸ hword) (hblocks.symm ▸ hsize)
  rw [hcount] at hrun
  exact hrun

end Level

/-! ## All levels -/

omit [Inhabited α] in
/-- A pass that keeps the sizes of its buffers keeps all sizes. -/
theorem Passed.sizes {k : Nat} {buffersRun : Buffers α → Buffers α → Prop} {store after : Store α}
    (h : Passed k buffersRun store after)
    (hsource : (after.source k).size = (store.source k).size)
    (htotals : (after.source (k + 1)).size = (store.source (k + 1)).size) (j : Nat) :
    (after.source j).size = (store.source j).size := by
  by_cases hk : j = k
  · rw [hk, hsource]
  · by_cases hk' : j = k + 1
    · rw [hk', htotals]
    · rw [h.others j hk hk']

omit [Inhabited α] in
theorem Store.Fits.of_sizes {store after : Store α} (h : store.Fits layout)
    (hlevels : after.levels.size = store.levels.size)
    (hsizes : ∀ j, (after.source j).size = (store.source j).size) : after.Fits layout :=
  ⟨hlevels.trans h.levels, fun j hj => (hsizes j).symm ▸ h.sizes j hj⟩

/-- The store before the passes over the levels from `k` on: buffer `k` has risen, and the buffers of
the levels are as they were initially. -/
structure Rising (op : Operator α) (settings : Settings) (layout : Layout) (initial : Store α)
    (k : Nat) (store : Store α) : Prop where
  fits : store.Fits layout
  here : ∀ i, store.cell k i = risen op settings layout initial k i
  above : ∀ j, k < j → ∀ i, store.cell j i = initial.cell j i

/-- A reduction raises the next buffer. -/
theorem Rising.reduced {initial store after : Store α} {k : Nat}
    (h : Rising op settings layout initial k store)
    (hgran : layout.granularity.toNat = settings.granularity.toNat) (hk : k < layout.numLevels)
    (hpassed : Passed k (BlocksReduced op settings · (layout.count (k + 1))) store after) :
    Rising op settings layout initial (k + 1) after := by
  have hpos := settings.two_le_granularity
  have hhere : (fun i => store.cell k i) = risen op settings layout initial k := funext h.here
  have hsizes := hpassed.sizes hpassed.run.sourceSize hpassed.run.totalsSize
  have hroom : layout.count (k + 1) ≤ (store.source (k + 1)).size := by
    have hblocks : layout.count (k + 1) ≤
        layout.count (k + 1 + 1) * layout.granularity.toNat :=
      count_le_mul (by omega) (k + 1)
    exact Nat.le_trans hblocks (h.fits.sizes (k + 1) hk)
  refine ⟨h.fits.of_sizes hpassed.levels hsizes, ?_, ?_⟩
  · intro b
    have htotal : after.cell (k + 1) b =
        if b < layout.count (k + 1) ∧ b < (store.source (k + 1)).size then
          blockTotal op settings (fun i => store.cell k i) b
        else store.cell (k + 1) b := hpassed.run.totals b
    rw [htotal, hhere, risen]
    by_cases hb : b < layout.count (k + 1)
    · rw [if_pos ⟨hb, by omega⟩, if_pos hb]
    · rw [if_neg fun hin => hb hin.1, if_neg hb, h.above _ (Nat.lt_succ_self k)]
  · intro j hj i
    rw [Store.cell, hpassed.others j (by omega) (by omega)]
    exact h.above j (by omega) i

/-- Buffer `k` after the reduction into level `k` and the passes over the levels above. -/
theorem Swept.cell_reduced {initial store reduced after : Store α} {k : Nat}
    (hrising : Rising op settings layout initial k store)
    (hpassed : Passed k (BlocksReduced op settings · (layout.count (k + 1))) store reduced)
    (h : Swept op settings layout initial (k + 1) reduced after) (i : Nat) :
    after.cell k i =
      if i < layout.count (k + 1) * settings.granularity.toNat then
        blockScanned op settings (risen op settings layout initial k) i
      else risen op settings layout initial k i := by
  have hhere : (fun i => store.cell k i) = risen op settings layout initial k :=
    funext hrising.here
  have hscan : reduced.cell k i =
      if i < layout.count (k + 1) * settings.granularity.toNat then
        blockScanned op settings (fun i => store.cell k i) i
      else store.cell k i := hpassed.run.source i
  rw [Store.cell, h.below k (Nat.lt_succ_self k), ← hhere]
  exact hscan

/-- The last level is not expanded. -/
theorem Swept.of_top (hsound : layout.Sound) {initial store reduced after : Store α} {k : Nat}
    (hk : k + 1 = layout.numLevels) (hrising : Rising op settings layout initial k store)
    (hpassed : Passed k (BlocksReduced op settings · (layout.count (k + 1))) store reduced)
    (h : Swept op settings layout initial (k + 1) reduced after) :
    Swept op settings layout initial k store after := by
  refine ⟨h.levels.trans hpassed.levels, ?_, ?_, ?_⟩
  · intro j
    exact (h.sizes j).trans (hpassed.sizes hpassed.run.sourceSize hpassed.run.totalsSize j)
  · intro j hj
    exact (h.below j (by omega)).trans (hpassed.others j (by omega) (by omega))
  · intro j hlow hhigh i
    by_cases hj : j = k
    · rw [hj, h.cell_reduced hrising hpassed, settled_of_top hsound hk]
    · exact h.cells j (by omega) hhigh i

/-- Any other level is expanded once it is scanned. -/
theorem Swept.of_expanded (hsound : layout.Sound)
    (hgran : layout.granularity.toNat = settings.granularity.toNat)
    {initial store reduced swept after : Store α} {k : Nat} (hk : k + 1 < layout.numLevels)
    (hrising : Rising op settings layout initial k store)
    (hpassed : Passed k (BlocksReduced op settings · (layout.count (k + 1))) store reduced)
    (h : Swept op settings layout initial (k + 1) reduced swept)
    (hexpanded : Passed k (BlocksExpanded op settings · (layout.count (k + 1) - 1)) swept after) :
    Swept op settings layout initial k store after := by
  have hblocks : layout.count (k + 1) - 1 + 1 = layout.count (k + 1) := by
    have := hsound.whole.count_pos (k + 1)
    omega
  have hcell : ∀ i, after.cell k i =
      if settings.granularity.toNat ≤ i ∧
          i < layout.count (k + 1) * settings.granularity.toNat then
        op.combine (swept.cell (k + 1) (i / settings.granularity.toNat - 1)) (swept.cell k i)
      else swept.cell k i := fun i => hblocks ▸ hexpanded.run.source i
  have hlevel : ∀ i, after.cell (k + 1) i = swept.cell (k + 1) i := hexpanded.run.totals
  refine ⟨hexpanded.levels.trans (h.levels.trans hpassed.levels), ?_, ?_, ?_⟩
  · intro j
    exact (hexpanded.sizes hexpanded.run.sourceSize hexpanded.run.totalsSize j).trans
      ((h.sizes j).trans (hpassed.sizes hpassed.run.sourceSize hpassed.run.totalsSize j))
  · intro j hj
    exact (hexpanded.others j (by omega) (by omega)).trans
      ((h.below j (by omega)).trans (hpassed.others j (by omega) (by omega)))
  · intro j hlow hhigh i
    rcases (by omega : j = k ∨ j = k + 1 ∨ k + 1 < j) with rfl | rfl | hj
    · rw [hcell, h.cell_reduced hrising hpassed, settled_of_expanded hgran hk]
      by_cases hin : i < layout.count (j + 1) * settings.granularity.toNat
      · by_cases hlater : settings.granularity.toNat ≤ i
        · rw [if_pos ⟨hlater, hin⟩, if_pos hin, if_pos hin, if_pos hlater,
            h.cells (j + 1) (Nat.le_refl _) (by omega)]
        · rw [if_neg fun hboth => hlater hboth.1, if_pos hin, if_pos hin, if_neg hlater]
      · rw [if_neg fun hboth => hin hboth.2, if_neg hin, if_neg hin]
    · rw [hlevel, h.cells (k + 1) (Nat.le_refl _) hhigh]
    · rw [Store.cell, hexpanded.others j (by omega) (by omega)]
      exact h.cells j (by omega) hhigh i

theorem foldlM_cons_append {σ β : Type} {f : σ → β → Except Fault σ} {x : β} {l rest : List β}
    {s first second : σ} (hfirst : f s x = .ok first) (hsecond : l.foldlM f first = .ok second) :
    (x :: l ++ rest).foldlM f s = rest.foldlM f second := by
  have hfront : (x :: l).foldlM f s = .ok second := by
    rw [List.foldlM_cons, hfirst]
    exact hsecond
  rw [List.foldlM_append, hfront]
  rfl

theorem sweep_run (op : Operator α) (fill : α) (h : layout.Sound)
    (hgran : layout.granularity.toNat = settings.granularity.toNat)
    (hfit : settings.granularity.toNat + settings.cubeDim.toNat ≤ 2 ^ 32) {initial store : Store α}
    {levels k : Nat} (hk : k + levels = layout.numLevels)
    (hrising : Rising op settings layout initial k store) :
    ∃ after, (layout.nested levels k).foldlM
        (fun store pass => (runPass op fill settings pass store).result) store = .ok after ∧
      Swept op settings layout initial k store after := by
  induction levels generalizing k store with
  | zero =>
      refine ⟨store, rfl, rfl, fun _ => rfl, fun _ _ => rfl, ?_⟩
      intro j hlow hhigh i
      obtain rfl : j = k := by omega
      rw [settled, if_neg (by omega)]
      exact hrising.here i
  | succ levels ih =>
      have hlevel : k < layout.numLevels := by omega
      obtain ⟨reduced, hreduce, hpassed⟩ :=
        reduction_run op fill h hgran hrising.fits hfit hlevel
      have hrisen := hrising.reduced hgran hlevel hpassed
      obtain ⟨swept, hsweep, hswept⟩ := ih (by omega) hrisen
      cases levels with
      | zero =>
          refine ⟨swept, ?_, hswept.of_top h (by omega) hrising hpassed⟩
          rw [Layout.nested, foldlM_cons_append hreduce hsweep]
          rfl
      | succ levels =>
          have hfits := hrisen.fits.of_sizes hswept.levels hswept.sizes
          obtain ⟨after, hexpand, hexpanded⟩ := expansion_run op fill h hgran hfits hfit hlevel
          refine ⟨after, ?_,
            hswept.of_expanded h hgran (by omega) hrising hpassed hexpanded⟩
          rw [Layout.nested, foldlM_cons_append hreduce hsweep, if_neg (Nat.succ_ne_zero levels),
            List.foldlM_cons, hexpand]
          rfl

end PrefixScan.Scan
