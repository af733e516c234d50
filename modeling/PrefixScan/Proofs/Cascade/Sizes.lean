import PrefixScan.Proofs.Cascade.Shape
import Mathlib.Algebra.Order.Ring.Nat
import Mathlib.Order.Bounds.Basic

/-!
# The sizes of a cascade in closed form

Rounding up level by level comes to rounding up once, by a power of the granularity.  So the size of a level
is known without the levels below it, and there are as many levels as it takes powers of the granularity to
reach the length.

## Main results

* `count_eq_ceilDiv` — the number of elements `k` levels up.
* `Shape.isLeast_length` — the number of levels.
* `Shape.isLeast_levelLength` — the allocation of a level.
* `Layout.ofLength_sizes` — all sizes of the layout of any length and granularity.
* `Layout.ofLength_never_faults` — none of them overflows.
-/

namespace PrefixScan.Cascade

/-! ## Counts -/

section Count

variable {size n : Nat}

theorem count_eq_ceilDiv (hsize : 0 < size) (k : Nat) : count size n k = n ⌈/⌉ size ^ k := by
  induction k with
  | zero => rw [Nat.pow_zero, ceilDiv_one, count]
  | succ k ih =>
      rw [Nat.pow_succ, ← ceilDiv_ceilDiv (Nat.pow_pos hsize) hsize, ← ih]
      rfl

/-- The elements that a level counts are those whose blocks start below the length. -/
theorem lt_count_iff (hsize : 0 < size) {k t : Nat} : t < count size n k ↔ t * size ^ k < n := by
  rw [count_eq_ceilDiv hsize]
  exact lt_ceil_iff (Nat.pow_pos hsize)

theorem count_le_one_iff (hsize : 0 < size) (k : Nat) : count size n k ≤ 1 ↔ n ≤ size ^ k := by
  rw [count_eq_ceilDiv hsize, ceilDiv_le_iff_le_mul (Nat.pow_pos hsize), Nat.mul_one]

/-- More than one element are fewer blocks. -/
theorem count_succ_lt (hsize : 2 ≤ size) {k : Nat} (hmany : 1 < count size n k) :
    count size n (k + 1) < count size n k := by
  have hless : 2 * count size n k ≤ size * count size n k := Nat.mul_le_mul_right _ hsize
  have hblock : size * 2 ≤ size * count size n k := Nat.mul_le_mul_left _ hmany
  rw [count]
  apply Nat.div_lt_of_lt_mul
  omega

end Count

/-! ## Levels -/

namespace Shape

variable {size n : Nat} {levels : List Level} (h : Shape size n levels)
include h

/-- The levels end with the first power that reaches the length. -/
theorem isLeast_length (hsize : 0 < size) : IsLeast {m | n ≤ size ^ m} levels.length := by
  constructor
  · exact (count_le_one_iff hsize levels.length).1 h.top
  · intro m hm
    by_contra hbelow
    have hmany := h.many m (Nat.not_le.1 hbelow)
    have hfew : count size n m ≤ 1 := (count_le_one_iff hsize m).2 hm
    omega

/-- A level is allocated for its block totals and no more than it takes to fill their last block. -/
theorem isLeast_levelLength (hsize : 0 < size) {k : Nat} {level : Level}
    (hlevel : levels[k]? = some level) :
    IsLeast {m | size ∣ m ∧ level.numElems.toNat ≤ m} level.length.toNat := by
  rw [h.numElems k level hlevel, h.length k level hlevel]
  constructor
  · exact ⟨Nat.dvd_mul_left size _, count_le_mul hsize (k + 1)⟩
  · rintro m ⟨⟨blocks, rfl⟩, hroom⟩
    rw [Nat.mul_comm]
    exact Nat.mul_le_mul_left size ((ceilDiv_le_iff_le_mul hsize).2 hroom)

/-- Only the last level holds a single total. -/
theorem numElems_eq_one_iff (hsize : 0 < size) (hn : 0 < n) {k : Nat} {level : Level}
    (hlevel : levels[k]? = some level) : level.numElems.toNat = 1 ↔ k + 1 = levels.length := by
  have hpos := count_pos hsize hn (k + 1)
  obtain ⟨hk, _⟩ := List.getElem?_eq_some_iff.1 hlevel
  rw [h.numElems k level hlevel]
  constructor
  · intro hone
    by_contra hlast
    have hmany := h.many (k + 1) (by omega)
    omega
  · intro hlast
    have htop := h.top
    rw [← hlast] at htop
    omega

/-- Every level holds fewer totals than the one before. -/
theorem pairwise_numElems (hsize : 2 ≤ size) :
    levels.Pairwise fun finer coarser => coarser.numElems.toNat < finer.numElems.toNat := by
  rw [List.pairwise_iff_getElem]
  intro j k hj hk hjk
  rw [h.numElems j _ (List.getElem?_eq_getElem hj), h.numElems k _ (List.getElem?_eq_getElem hk)]
  calc count size n (k + 1)
      ≤ count size n (j + 1 + 1) := count_anti (by omega) (by omega)
    _ < count size n (j + 1) := count_succ_lt hsize (h.many (j + 1) (by omega))

end Shape

/-! ## Layouts -/

namespace Layout

theorem sourceLength_ceilDiv {layout : Layout} (hsize : 0 < layout.granularity.toNat)
    (h : Shape layout.granularity.toNat layout.inputLength.toNat layout.levels) {k : Nat}
    (hk : k < layout.numLevels) :
    ∃ source, layout.sourceLength k = .ok source ∧
      source.toNat ⌈/⌉ layout.granularity.toNat = layout.count (k + 1) :=
  sourceLength_blocks hsize h (Nat.le_of_lt hk)

/-- Fewer than two elements, or blocks of fewer than two, have no level. -/
theorem levelsAbove_eq_nil {granularity n : Size}
    (h : n.toNat ≤ 1 ∨ granularity.toNat ≤ 1) : levelsAbove granularity n = .ok [] := by
  have hone : (1 : Size).toNat = 1 := rfl
  rw [levelsAbove, dif_neg]
  rintro ⟨hn, hgran⟩
  have hn := BitVec.lt_def.1 hn
  have hgran := BitVec.lt_def.1 hgran
  omega

/-- The layout of any length and granularity exists.  Where there is something to divide, it has the least
number of levels such that the granularity to this power is no less than the length.  Level `k` holds one
total for every `granularity ^ (k + 1)` elements, is allocated up to the next multiple of the granularity,
and has one total for every block of its source.  The totals become fewer from level to level, and one is
left in the last level and in no other.  Where there is nothing to divide, there is neither a level nor a
pass. -/
theorem ofLength_sizes (length granularity : Size) :
    ∃ layout, Layout.ofLength length granularity = .ok layout ∧
      (2 ≤ length.toNat → 2 ≤ granularity.toNat →
        IsLeast {n | length.toNat ≤ granularity.toNat ^ n} layout.numLevels ∧
        (∀ k < layout.numLevels, ∃ level source, layout.level k = .ok level ∧
          layout.sourceLength k = .ok source ∧
          level.numElems.toNat = length.toNat ⌈/⌉ granularity.toNat ^ (k + 1) ∧
          IsLeast {n | granularity.toNat ∣ n ∧ level.numElems.toNat ≤ n} level.length.toNat ∧
          source.toNat ⌈/⌉ granularity.toNat = level.numElems.toNat ∧
          (level.numElems.toNat = 1 ↔ k + 1 = layout.numLevels)) ∧
        layout.levels.Pairwise fun finer coarser =>
          coarser.numElems.toNat < finer.numElems.toNat) ∧
      (length.toNat ≤ 1 ∨ granularity.toNat ≤ 1 →
        layout.numLevels = 0 ∧ layout.passes = .ok []) := by
  by_cases hsmall : length.toNat ≤ 1 ∨ granularity.toNat ≤ 1
  · refine ⟨⟨length, granularity, []⟩, ?_, by omega, fun _ => ⟨rfl, rfl⟩⟩
    rw [Layout.ofLength, levelsAbove_eq_nil hsmall]
    rfl
  · have hgran : 1 < granularity.toNat := by omega
    have hpos : 0 < granularity.toNat := by omega
    obtain ⟨layout, hlayout⟩ := Layout.ofLength_isOk hgran length
    have hshape := Layout.shape_of_ofLength hgran hlayout
    obtain ⟨levels, _, rfl⟩ := Layout.ofLength_eq_ok hlayout
    refine ⟨_, hlayout, ?_, fun h => absurd h hsmall⟩
    intro hn _
    refine ⟨hshape.isLeast_length hpos, ?_, hshape.pairwise_numElems hgran⟩
    intro k hk
    obtain ⟨level, hlevel, hentry⟩ := level_isOk hk
    obtain ⟨source, hsource, hblocks⟩ := sourceLength_ceilDiv hpos hshape hk
    have hnum := hshape.numElems k level hentry
    refine ⟨level, source, hlevel, hsource, ?_, hshape.isLeast_levelLength hpos hentry, ?_,
      hshape.numElems_eq_one_iff hpos (by omega) hentry⟩
    · rw [hnum, count_eq_ceilDiv hpos]
    · rw [hblocks, hnum]
      rfl

/-- Nine elements are one more than three doublings reach. -/
theorem ofLength_sizes_nine :
    ∃ layout, Layout.ofLength 9 2 = .ok layout ∧ layout.numLevels = 4 := by
  obtain ⟨layout, hlayout, hlarge, _⟩ := ofLength_sizes 9 2
  obtain ⟨hleast, _⟩ := hlarge (by decide) (by decide)
  have hfour : IsLeast {n | (9 : Size).toNat ≤ (2 : Size).toNat ^ n} 4 := by
    refine ⟨by decide, fun n hn => ?_⟩
    by_contra hbelow
    have hpow : 2 ^ n ≤ 2 ^ 3 := Nat.pow_le_pow_right (by decide) (by omega)
    have hreach : 9 ≤ 2 ^ n := hn
    omega
  exact ⟨layout, hlayout, hleast.unique hfour⟩

/-! ## Faults -/

/-- A level for each bit of the length is the most there can be. -/
theorem length_levels_le {granularity n : Size} (hgran : 2 ≤ granularity.toNat) {levels : List Level}
    (h : Shape granularity.toNat n.toNat levels) : levels.length ≤ 64 := by
  apply (h.isLeast_length (by omega)).2
  calc n.toNat ≤ 2 ^ 64 := n.isLt.le
    _ ≤ granularity.toNat ^ 64 := Nat.pow_le_pow_left hgran 64

/-- Sizing a cascade stops after at most 64 levels and never faults, whatever the length and the granularity
are, and nor do the passes and the source lengths of its levels.  All numbers are the exact ones: the counts
by which the passes are made up, no level without a total to take away, allocations of whole blocks although
the granularity may be next to the end of the word.  A quotient that is rounded up has no fault of its own,
but its increment is no risk: it could as well be checked. -/
theorem ofLength_never_faults (length granularity : Size) :
    ∃ layout, Layout.ofLength length granularity = .ok layout ∧ layout.numLevels ≤ 64 ∧
      layout.passes = .ok (layout.nested layout.numLevels 0) ∧
      (∀ k < layout.numLevels, ∃ level source, layout.level k = .ok level ∧
        layout.sourceLength k = .ok source ∧
        level.numElems.toNat = layout.count (k + 1) ∧ 1 ≤ level.numElems.toNat ∧
        level.length.toNat = layout.count (k + 2) * granularity.toNat ∧
        source.toNat ⌈/⌉ granularity.toNat = layout.count (k + 1)) ∧
      ∀ n : Size, Word.ceilDiv n granularity = (do
        let quotient ← Word.div n granularity
        let rest ← Word.rem n granularity
        if rest = 0 then return quotient else Word.add quotient 1) := by
  have hincrement := fun n => Word.ceilDiv_eq_increment n granularity
  by_cases hsmall : length.toNat ≤ 1 ∨ granularity.toNat ≤ 1
  · refine ⟨⟨length, granularity, []⟩, ?_, Nat.zero_le _, rfl, nofun, hincrement⟩
    rw [Layout.ofLength, levelsAbove_eq_nil hsmall]
    rfl
  · have hgran : 2 ≤ granularity.toNat := by omega
    have hpos : 0 < granularity.toNat := by omega
    have hn : 0 < length.toNat := by omega
    obtain ⟨layout, hlayout⟩ := Layout.ofLength_isOk hgran length
    have hshape := Layout.shape_of_ofLength hgran hlayout
    obtain ⟨levels, _, rfl⟩ := Layout.ofLength_eq_ok hlayout
    refine ⟨_, hlayout, length_levels_le hgran hshape, passes_eq_nested hpos hshape hn, ?_, hincrement⟩
    intro k hk
    obtain ⟨level, hlevel, hentry⟩ := level_isOk hk
    obtain ⟨source, hsource, hblocks⟩ := sourceLength_ceilDiv hpos hshape hk
    have hnum := hshape.numElems k level hentry
    exact ⟨level, source, hlevel, hsource, hnum, hnum ▸ count_pos hpos hn (k + 1),
      hshape.length k level hentry, hblocks⟩

/-- As many elements as a word can count, in a single block: one total, in an allocation that takes up the
word as well. -/
theorem ofLength_never_faults_full :
    ∃ layout level, Layout.ofLength (BitVec.allOnes 64) (BitVec.allOnes 64) = .ok layout ∧
      layout.passes = .ok [⟨.reduce, 0, 1⟩] ∧ layout.level 0 = .ok level ∧
      level.numElems = 1 ∧ level.length = BitVec.allOnes 64 := by
  obtain ⟨layout, hlayout, _, hpasses, hlevels, _⟩ :=
    ofLength_never_faults (BitVec.allOnes 64) (BitVec.allOnes 64)
  have hshape := Layout.shape_of_ofLength (by decide) hlayout
  obtain ⟨levels, _, rfl⟩ := Layout.ofLength_eq_ok hlayout
  have hone : levels.length = 1 := by
    have hfits : IsLeast {m | (BitVec.allOnes 64).toNat ≤ (BitVec.allOnes 64).toNat ^ m} 1 := by
      refine ⟨by decide, fun m hm => ?_⟩
      by_contra hnone
      obtain rfl : m = 0 := by omega
      exact absurd hm (by decide)
    exact (hshape.isLeast_length (by decide)).unique hfits
  have hfirst : Cascade.count (BitVec.allOnes 64).toNat (BitVec.allOnes 64).toNat 1 = 1 := by decide
  have hsecond : Cascade.count (BitVec.allOnes 64).toNat (BitVec.allOnes 64).toNat 2 = 1 := by decide
  obtain ⟨level, _, hlevel, _, hnum, _, hlength, _⟩ := hlevels 0 (by rw [Layout.numLevels, hone]; decide)
  refine ⟨_, level, hlayout, ?_, hlevel, BitVec.eq_of_toNat_eq (hnum.trans hfirst),
    BitVec.eq_of_toNat_eq ?_⟩
  · rw [hpasses, Layout.numLevels, hone]
    simp only [Layout.nested, Layout.reduction, Layout.count, hfirst]
    rfl
  · rw [hlength, Layout.count, hsecond, Nat.one_mul]

end Layout

end PrefixScan.Cascade
