import PrefixScan.Scan
import PrefixScan.Proofs.Rounding

/-!
# The shape of a cascade

Level `k` of a cascade holds `count (k + 1)` block totals and is allocated for `count (k + 2)` whole
blocks.  The scanned buffer fits the pattern as the level below the first: it has `count 0` elements in
`count 1` whole blocks.  Counts shrink until a single total is left, so every count, and every number of
cubes, fits 32 bits if the length does.

## Main results

* `Layout.ofLength_isOk` — the layout of a length exists, however long.
* `Layout.shape_of_ofLength` — the sizes of all levels of a layout.
* `Layout.passes_eq_nested` — the passes of a layout.
-/

namespace PrefixScan.Cascade

/-! ## Counts -/

/-- The number of elements `k` levels above `n` elements, in blocks of `size`. -/
def count (size n : Nat) : (k : Nat) → Nat
  | 0 => n
  | k + 1 => (count size n k + size - 1) / size

section Count

variable {size n : Nat}

theorem count_succ' (k : Nat) :
    count size n (k + 1) = count size ((n + size - 1) / size) k := by
  induction k with
  | zero => rfl
  | succ k ih => rw [count, ih, count]

theorem count_le_mul (hsize : 0 < size) (k : Nat) : count size n k ≤ count size n (k + 1) * size :=
  le_ceil_mul hsize

theorem count_pos (hsize : 0 < size) (hn : 0 < n) (k : Nat) : 0 < count size n k := by
  induction k with
  | zero => exact hn
  | succ k ih => exact (lt_ceil_iff hsize).2 (by omega)

theorem count_succ_le (hsize : 0 < size) (k : Nat) : count size n (k + 1) ≤ count size n k := by
  rw [count, Nat.div_le_iff_le_mul_add_pred hsize]
  have hle : count size n k ≤ size * count size n k := Nat.le_mul_of_pos_left _ hsize
  omega

theorem count_anti (hsize : 0 < size) {j k : Nat} (hjk : j ≤ k) :
    count size n k ≤ count size n j := by
  induction hjk with
  | refl => exact Nat.le_refl _
  | step _ ih => exact Nat.le_trans (count_succ_le hsize _) ih

/-- No level is allocated for more than a length of whole blocks. -/
theorem count_mul_le (hsize : 0 < size) (hdvd : size ∣ n) (k : Nat) :
    count size n (k + 1) * size ≤ n := by
  calc count size n (k + 1) * size
      ≤ count size n 1 * size :=
        Nat.mul_le_mul_right _ (count_anti hsize (Nat.succ_le_succ (Nat.zero_le k)))
    _ = n := ceil_mul_of_dvd hsize hdvd

end Count

/-! ## Levels -/

/-- The levels have the sizes that a cascade above `n` elements needs. -/
structure Shape (size n : Nat) (levels : List Level) : Prop where
  numElems : ∀ k level, levels[k]? = some level → level.numElems.toNat = count size n (k + 1)
  length : ∀ k level, levels[k]? = some level → level.length.toNat = count size n (k + 2) * size
  many : ∀ k < levels.length, 1 < count size n k
  top : count size n levels.length ≤ 1

theorem Shape.cons {size n : Nat} {level : Level} {rest : List Level} (hn : 1 < n)
    (hnum : level.numElems.toNat = (n + size - 1) / size)
    (hlength : level.length.toNat = (level.numElems.toNat + size - 1) / size * size)
    (hrest : Shape size level.numElems.toNat rest) : Shape size n (level :: rest) := by
  have hcount : ∀ k, count size n (k + 1) = count size level.numElems.toNat k := by
    intro k
    rw [hnum, count_succ']
  refine ⟨?_, ?_, ?_, ?_⟩
  · intro k other hother
    cases k with
    | zero =>
        cases hother
        exact hnum
    | succ k => rw [hcount, hrest.numElems k other hother]
  · intro k other hother
    cases k with
    | zero =>
        cases hother
        rw [hcount, hlength, count, count]
    | succ k => rw [hcount, hrest.length k other hother]
  · intro k hk
    cases k with
    | zero => exact hn
    | succ k =>
        rw [hcount]
        exact hrest.many k (Nat.lt_of_succ_lt_succ hk)
  · rw [List.length_cons, hcount]
    exact hrest.top

theorem Layout.shape_levelsAbove {granularity n : Size} (hgran : 1 < granularity.toNat)
    {levels : List Level} (h : Layout.levelsAbove granularity n = .ok levels) :
    Shape granularity.toNat n.toNat levels := by
  have hone : (1 : Size).toNat = 1 := rfl
  induction hsize : n.toNat using Nat.strong_induction_on generalizing n levels with
  | _ size ih =>
      subst hsize
      rw [levelsAbove] at h
      split at h
      · rename_i hmany
        have hn : 1 < n.toNat := BitVec.lt_def.1 hmany.1
        split at h
        · cases h
        · rename_i blocks hblocks
          have hnum : blocks.toNat =
              (n.toNat + granularity.toNat - 1) / granularity.toNat := by
            rw [Word.ceilDiv_eq_ok hblocks, Word.toNat_ceilQuot _ _ (by omega)]
          have hless : blocks.toNat < n.toNat := by
            rw [Word.ceilDiv_eq_ok hblocks]
            exact Word.ceilQuot_lt hn hgran
          split at h
          · cases h
          · rename_i length hlength
            have hround := Word.roundUp_eq_ok (by omega) hlength
            split at h
            · cases h
            · rename_i rest hrest
              cases h
              exact Shape.cons hn hnum hround (ih _ hless hrest rfl)
      · rename_i hfew
        cases h
        have hn : n.toNat ≤ 1 := by
          by_contra hmany
          exact hfew ⟨BitVec.lt_def.2 (by omega), BitVec.lt_def.2 hgran⟩
        exact ⟨by simp, by simp, by simp, hn⟩

/-- No size of a level overflows. -/
theorem Layout.levelsAbove_isOk {granularity : Size} (hgran : 1 < granularity.toNat) (n : Size) :
    ∃ levels, Layout.levelsAbove granularity n = .ok levels := by
  have hone : (1 : Size).toNat = 1 := rfl
  induction hsize : n.toNat using Nat.strong_induction_on generalizing n with
  | _ size ih =>
      subst hsize
      rw [levelsAbove]
      split
      · rename_i hmany
        have hn : 1 < n.toNat := BitVec.lt_def.1 hmany.1
        obtain ⟨blocks, hblocks, hnum⟩ := Word.ceilDiv_isOk n (by omega : 0 < granularity.toNat)
        have hless : blocks.toNat < n.toNat := by
          rw [Word.ceilDiv_eq_ok hblocks]
          exact Word.ceilQuot_lt hn hgran
        have hroom : blocks.toNat + granularity.toNat ≤ 2 ^ 64 :=
          hnum ▸ ceil_add_le hgran n.isLt granularity.isLt
        obtain ⟨length, hlength, _⟩ := Word.roundUp_isOk (by omega) hroom
        obtain ⟨rest, hrest⟩ := ih _ hless blocks rfl
        split
        · rename_i fault hfault
          rw [hblocks] at hfault
          cases hfault
        · rename_i blocks' hblocks'
          rw [hblocks] at hblocks'
          cases hblocks'
          simp only [hlength, hrest]
          exact ⟨_, rfl⟩
      · exact ⟨[], rfl⟩

theorem Layout.ofLength_isOk {granularity : Size} (hgran : 1 < granularity.toNat) (length : Size) :
    ∃ layout, Layout.ofLength length granularity = .ok layout := by
  obtain ⟨levels, hlevels⟩ := levelsAbove_isOk hgran length
  exact ⟨⟨length, granularity, levels⟩, by rw [ofLength, hlevels]; rfl⟩

theorem Layout.ofLength_eq_ok {length granularity : Size} {layout : Layout}
    (h : Layout.ofLength length granularity = .ok layout) :
    ∃ levels, levelsAbove granularity length = .ok levels ∧
      layout = ⟨length, granularity, levels⟩ := by
  rw [ofLength] at h
  cases hlevels : levelsAbove granularity length with
  | error fault =>
      rw [hlevels] at h
      cases h
  | ok levels =>
      rw [hlevels] at h
      cases h
      exact ⟨levels, rfl, rfl⟩

theorem Layout.shape_of_ofLength {length granularity : Size} (hgran : 1 < granularity.toNat)
    {layout : Layout} (h : Layout.ofLength length granularity = .ok layout) :
    Shape granularity.toNat length.toNat layout.levels := by
  obtain ⟨levels, hlevels, rfl⟩ := ofLength_eq_ok h
  exact shape_levelsAbove hgran hlevels

/-! ## Passes -/

/-- A layout of a cascade over whole blocks. -/
structure Layout.Whole (layout : Layout) : Prop where
  two_le_granularity : 2 ≤ layout.granularity.toNat
  pos : 0 < layout.inputLength.toNat
  dvd : layout.granularity.toNat ∣ layout.inputLength.toNat
  shape : Shape layout.granularity.toNat layout.inputLength.toNat layout.levels

/-- A layout of a cascade over whole blocks, all of them within reach of 32-bit positions. -/
structure Layout.Sound (layout : Layout) : Prop where
  two_le_granularity : 2 ≤ layout.granularity.toNat
  pos : 0 < layout.inputLength.toNat
  dvd : layout.granularity.toNat ∣ layout.inputLength.toNat
  fits : layout.inputLength.toNat ≤ 2 ^ 32
  shape : Shape layout.granularity.toNat layout.inputLength.toNat layout.levels

theorem Layout.Sound.whole {layout : Layout} (h : layout.Sound) : layout.Whole :=
  ⟨h.two_le_granularity, h.pos, h.dvd, h.shape⟩

namespace Layout

/-- The counts of a layout. -/
def count (layout : Layout) (k : Nat) : Nat :=
  Cascade.count layout.granularity.toNat layout.inputLength.toNat k

/-- The reduction into level `k`. -/
def reduction (layout : Layout) (k : Nat) : Pass :=
  ⟨.reduce, k, BitVec.ofNat 32 (layout.count (k + 1))⟩

/-- The expansion of level `k`. -/
def expansion (layout : Layout) (k : Nat) : Pass :=
  ⟨.expand, k, BitVec.ofNat 32 (layout.count (k + 1) - 1)⟩

/-- The passes over `levels` levels from level `k` on.  Between the reduction into a level and its
expansion are the passes over the levels above; the last level is not expanded. -/
def nested (layout : Layout) : (levels k : Nat) → List Pass
  | 0, _ => []
  | levels + 1, k =>
    layout.reduction k :: layout.nested levels (k + 1) ++
      if levels = 0 then [] else [layout.expansion k]

theorem nested_eq (layout : Layout) (levels k : Nat) :
    layout.nested levels k = (List.range' k levels).map layout.reduction ++
      (List.range' k (levels - 1)).reverse.map layout.expansion := by
  induction levels generalizing k with
  | zero => rfl
  | succ levels ih =>
      rw [nested, ih, List.range'_succ]
      cases levels with
      | zero => rfl
      | succ levels => simp [List.range'_succ]

theorem mapM_eq_ok {β γ : Type} {f : β → Except Fault γ} {g : β → γ} {l : List β}
    (h : ∀ x ∈ l, f x = .ok (g x)) : l.mapM f = .ok (l.map g) := by
  induction l with
  | nil => rfl
  | cons x l ih =>
      have hRest := ih fun y hy => h y (by simp [hy])
      rw [List.mapM_cons, h x (by simp), hRest]
      rfl

theorem level_isOk {layout : Layout} {k : Nat} (hk : k < layout.numLevels) :
    ∃ level, layout.level k = .ok level ∧ layout.levels[k]? = some level := by
  refine ⟨layout.levels[k], ?_, List.getElem?_eq_getElem hk⟩
  rw [level, List.getElem?_eq_getElem hk]

/-! ### Passes over any length

The length need not be made of whole blocks. -/

section Passes

variable {layout : Layout} (hpos : 0 < layout.granularity.toNat)
  (h : Shape layout.granularity.toNat layout.inputLength.toNat layout.levels)
include hpos h

/-- The source of a level takes as many blocks as the level has totals, the last of them maybe in part. -/
theorem sourceLength_blocks {k : Nat} (hk : k ≤ layout.numLevels) :
    ∃ source, layout.sourceLength k = .ok source ∧
      (source.toNat + layout.granularity.toNat - 1) / layout.granularity.toNat =
        layout.count (k + 1) := by
  cases k with
  | zero => exact ⟨layout.inputLength, rfl, rfl⟩
  | succ k =>
      obtain ⟨level, hlevel, hentry⟩ := level_isOk hk
      have hlength := h.length k level hentry
      refine ⟨level.length, by rw [sourceLength, hlevel]; rfl, ?_⟩
      apply Nat.eq_of_mul_eq_mul_right hpos
      rw [ceil_mul_of_dvd hpos (hlength ▸ Nat.dvd_mul_left _ _), hlength]
      rfl

theorem reducePass_eq {k : Nat} (hk : k < layout.numLevels) :
    layout.reducePass k = .ok (layout.reduction k) := by
  obtain ⟨source, hsource, hcount⟩ := sourceLength_blocks hpos h (Nat.le_of_lt hk)
  obtain ⟨blocks, hblocks, hquot⟩ := Word.ceilDiv_isOk source hpos
  have hword : blocks.setWidth 32 = BitVec.ofNat 32 (layout.count (k + 1)) := by
    apply BitVec.eq_of_toNat_eq
    rw [BitVec.toNat_setWidth, BitVec.toNat_ofNat, hquot, hcount]
  rw [reducePass, hsource]
  show (do let blocks ← Word.ceilDiv source layout.granularity; _) = _
  rw [hblocks, reduction, ← hword]
  rfl

variable (hn : 0 < layout.inputLength.toNat)
include hn

theorem expandPass_eq {k : Nat} (hk : k < layout.numLevels) :
    layout.expandPass k = .ok (layout.expansion k) := by
  obtain ⟨level, hlevel, hentry⟩ := level_isOk hk
  have hnum : level.numElems.toNat = layout.count (k + 1) := h.numElems k level hentry
  have hone : 1 ≤ level.numElems := BitVec.le_def.2 (hnum ▸ Cascade.count_pos hpos hn (k + 1))
  have hword : (level.numElems - 1).setWidth 32 =
      BitVec.ofNat 32 (layout.count (k + 1) - 1) := by
    apply BitVec.eq_of_toNat_eq
    rw [BitVec.toNat_setWidth, BitVec.toNat_ofNat, BitVec.toNat_sub_of_le hone, hnum]
    rfl
  rw [expandPass, hlevel]
  show (do let blocks ← Word.sub level.numElems 1; _) = _
  rw [Word.sub, if_pos hone, expansion, ← hword]
  rfl

/-- The passes of a layout nest. -/
theorem passes_eq_nested : layout.passes = .ok (layout.nested layout.numLevels 0) := by
  have hup : (List.range layout.numLevels).mapM layout.reducePass =
      .ok ((List.range layout.numLevels).map layout.reduction) :=
    mapM_eq_ok fun k hk => reducePass_eq hpos h (List.mem_range.1 hk)
  have hdown : (List.range (layout.numLevels - 1)).reverse.mapM layout.expandPass =
      .ok ((List.range (layout.numLevels - 1)).reverse.map layout.expansion) :=
    mapM_eq_ok fun k hk => expandPass_eq hpos h hn (by
      have := List.mem_range.1 (List.mem_reverse.1 hk)
      omega)
  rw [passes, hup]
  show (do let down ← (List.range (layout.numLevels - 1)).reverse.mapM layout.expandPass; _) = _
  rw [hdown, nested_eq, List.range_eq_range', List.range_eq_range']
  rfl

end Passes

namespace Whole

variable {layout : Layout} (h : layout.Whole)
include h

theorem granularity_pos : 0 < layout.granularity.toNat :=
  Nat.lt_of_lt_of_le Nat.zero_lt_two h.two_le_granularity

theorem count_mul_le (k : Nat) :
    layout.count (k + 1) * layout.granularity.toNat ≤ layout.inputLength.toNat :=
  Cascade.count_mul_le h.granularity_pos h.dvd k

/-- The buffer is made of whole blocks. -/
theorem count_one_mul : layout.count 1 * layout.granularity.toNat = layout.inputLength.toNat :=
  ceil_mul_of_dvd h.granularity_pos h.dvd

theorem count_pos (k : Nat) : 0 < layout.count k :=
  Cascade.count_pos h.granularity_pos h.pos k

/-- The last level holds a single total. -/
theorem count_numLevels : layout.count layout.numLevels = 1 :=
  Nat.le_antisymm h.shape.top (h.count_pos _)

/-- A buffer of whole blocks has a level above it. -/
theorem numLevels_pos : 0 < layout.numLevels := by
  have htwo := h.two_le_granularity
  have hle := Nat.le_of_dvd h.pos h.dvd
  apply Nat.pos_of_ne_zero
  intro hzero
  have htop := h.shape.top
  have hnone : layout.levels.length = 0 := hzero
  rw [hnone] at htop
  have hcount : layout.inputLength.toNat ≤ 1 := htop
  omega

theorem sourceLength_eq {k : Nat} (hk : k ≤ layout.numLevels) :
    ∃ length, layout.sourceLength k = .ok length ∧
      length.toNat = layout.count (k + 1) * layout.granularity.toNat := by
  cases k with
  | zero => exact ⟨layout.inputLength, rfl, h.count_one_mul.symm⟩
  | succ k =>
      obtain ⟨level, hlevel, hentry⟩ := level_isOk hk
      exact ⟨level.length, by rw [sourceLength, hlevel]; rfl, h.shape.length k level hentry⟩

theorem passes_eq : layout.passes = .ok (layout.nested layout.numLevels 0) :=
  passes_eq_nested h.granularity_pos h.shape h.pos

end Whole

/-- A number of cubes fits 32 bits. -/
theorem Sound.count_lt {layout : Layout} (h : layout.Sound) (k : Nat) :
    layout.count (k + 1) < 2 ^ 32 := by
  have hmul := h.whole.count_mul_le k
  have hfits := h.fits
  have htwo : layout.count (k + 1) * 2 ≤ layout.count (k + 1) * layout.granularity.toNat :=
    Nat.mul_le_mul_left _ h.two_le_granularity
  omega

end Layout

end PrefixScan.Cascade
