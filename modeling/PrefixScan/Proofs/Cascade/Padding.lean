import PrefixScan.Proofs.Cube.Memory
import PrefixScan.Proofs.Scan.Accept
import PrefixScan.Proofs.Total

/-!
# Padding

A level of a cascade is allocated for whole blocks, and what lies behind its totals is padding.  Which
levels have any depends on the length and the granularity alone; what it holds is up to whoever used the
memory before.

## Main definitions

* `Layout.padding`, `Layout.leftover` — what the padding of a level, and of all levels that are reduced,
  holds.
* `Layout.Full` — no level that is reduced has padding.

## Main results

* `Layout.full_iff` — the layouts without padding are those of powers of the granularity.
* `Layout.exists_total_padding` — the padding of any other layout can have any total.
-/

namespace PrefixScan.Cascade

/-! ## Full layouts -/

/-- What a level holds behind its totals. -/
def Layout.padding {α : Type} (layout : Layout) (levels : Array (Array α)) (k : Nat) : List α :=
  (levels.getD k #[]).toList.drop (layout.count (k + 1))

/-- The padding of all levels that are reduced, one after the other.  The last one is not. -/
def Layout.leftover {α : Type} (layout : Layout) (levels : Array (Array α)) : List α :=
  (List.range (layout.numLevels - 1)).flatMap (layout.padding levels)

/-- The totals of every level but the last fill whole blocks. -/
def Layout.Full (layout : Layout) : Prop :=
  ∀ k, k + 1 < layout.numLevels →
    layout.count (k + 2) * layout.granularity.toNat = layout.count (k + 1)

/-- The counts above a power go down through the powers. -/
theorem count_pow {size : Nat} (hsize : 0 < size) {m k : Nat} (hk : k ≤ m) :
    count size (size ^ m) k = size ^ (m - k) := by
  induction k with
  | zero => rfl
  | succ k ih =>
      have hpow : size ^ (m - k) = size ^ (m - (k + 1)) * size := by
        rw [← Nat.pow_succ]
        congr 1
        omega
      apply Nat.eq_of_mul_eq_mul_right hsize
      rw [count, ih (by omega), ceil_mul_of_dvd hsize (hpow ▸ Nat.dvd_mul_left _ _), hpow]

namespace Layout

variable {layout : Layout}

/-- Every level of a full layout multiplies the count by the granularity. -/
theorem Full.count_mul_pow (hfull : layout.Full) (h : layout.Sound) {k : Nat}
    (hk : k ≤ layout.numLevels) :
    layout.count k * layout.granularity.toNat ^ k = layout.inputLength.toNat := by
  have hstep : ∀ k < layout.numLevels,
      layout.count (k + 1) * layout.granularity.toNat = layout.count k := by
    intro k hk
    cases k with
    | zero => exact h.whole.count_one_mul
    | succ k => exact hfull k hk
  induction k with
  | zero => exact Nat.mul_one _
  | succ k ih => rw [← ih (by omega), ← hstep k hk, Nat.pow_succ', Nat.mul_assoc]

theorem full_of_pow (h : layout.Sound) {m : Nat}
    (hm : layout.inputLength.toNat = layout.granularity.toNat ^ m) : layout.Full := by
  intro k hk
  have hcount : ∀ j ≤ m, layout.count j = layout.granularity.toNat ^ (m - j) := by
    intro j hj
    rw [count, hm, count_pow h.whole.granularity_pos hj]
  -- the counts reach one at `m`, and the totals of this level are more
  have hmany : 1 < layout.count (k + 1) := h.shape.many (k + 1) hk
  have hbelow : k + 1 < m := by
    by_contra hnot
    have hanti : layout.count (k + 1) ≤ layout.count m :=
      count_anti h.whole.granularity_pos (Nat.not_lt.1 hnot)
    rw [hcount m (Nat.le_refl m), Nat.sub_self, Nat.pow_zero] at hanti
    omega
  have hexp : m - (k + 1) = m - (k + 2) + 1 := by omega
  rw [hcount (k + 1) (by omega), hcount (k + 2) (by omega), hexp, Nat.pow_succ]

/-- There is no padding if and only if the length is a power of the granularity. -/
theorem full_iff (h : layout.Sound) :
    layout.Full ↔ ∃ m, layout.inputLength.toNat = layout.granularity.toNat ^ m := by
  constructor
  · intro hfull
    refine ⟨layout.numLevels, ?_⟩
    rw [← hfull.count_mul_pow h (Nat.le_refl _), h.whole.count_numLevels, Nat.one_mul]
  · rintro ⟨m, hm⟩
    exact full_of_pow h hm

/-! ## Contents of padding -/

/-- A full layout has no padding. -/
theorem Full.leftover_eq_nil {α : Type} (hfull : layout.Full) (h : layout.Sound)
    {levels : Array (Array α)} (hlevels : layout.Stores levels) : layout.leftover levels = [] := by
  rw [leftover, List.flatMap_eq_nil_iff]
  intro k hk
  have hbelow : k + 1 < layout.numLevels := by
    have := List.mem_range.1 hk
    omega
  have hsize := hlevels.size_eq h.whole (Nat.lt_of_succ_lt hbelow)
  rw [hfull k hbelow] at hsize
  rw [padding, List.drop_eq_nil_iff, Array.length_toList, hsize]

section Polluted

variable {α : Type} {e z : α} {k : Nat}

/-- Fresh buffers that hold `e`, apart from a `z` behind the totals of level `k`. -/
def polluted (layout : Layout) (e z : α) (k : Nat) : Array (Array α) :=
  (layout.fresh e).modify k (·.setIfInBounds (layout.count (k + 1)) z)

theorem stores_polluted : layout.Stores (layout.polluted e z k) := by
  obtain ⟨hsize, hlengths⟩ := layout.stores_fresh e
  refine ⟨?_, ?_⟩
  · rw [polluted, Array.size_modify, hsize]
  · intro j level hlevel
    rw [← hlengths j level hlevel, polluted, getD_modify _ _ _ (by simp)]
    split
    · rename_i hj
      rw [Array.size_setIfInBounds, hj]
    · rfl

theorem getD_fresh (layout : Layout) (e : α) (j : Nat) :
    ∃ n, (layout.fresh e).getD j #[] = Array.replicate n e := by
  rw [fresh, Array.getD_eq_getD_getElem?, List.getElem?_toArray, List.getElem?_map]
  cases layout.levels[j]? with
  | none => exact ⟨0, rfl⟩
  | some level => exact ⟨level.length.toNat, rfl⟩

theorem padding_polluted_of_ne (layout : Layout) {j : Nat} (hj : j ≠ k) :
    ∃ n, layout.padding (layout.polluted e z k) j = List.replicate n e := by
  obtain ⟨n, hn⟩ := layout.getD_fresh e j
  refine ⟨n - layout.count (j + 1), ?_⟩
  rw [padding, polluted, getD_modify _ _ _ (by simp), if_neg hj, hn, Array.toList_replicate,
    List.drop_replicate]

theorem padding_polluted (h : layout.Sound) (hk : k < layout.numLevels)
    (hpadded : layout.count (k + 1) < layout.count (k + 2) * layout.granularity.toNat) :
    ∃ n, layout.padding (layout.polluted e z k) k = z :: List.replicate n e := by
  obtain ⟨n, hn⟩ := layout.getD_fresh e k
  have hsize := (layout.stores_fresh e).size_eq h.whole hk
  rw [hn, Array.size_replicate] at hsize
  obtain ⟨rest, hrest⟩ := Nat.exists_eq_add_one.2 (Nat.sub_pos_of_lt (hsize ▸ hpadded))
  refine ⟨rest, ?_⟩
  rw [padding, polluted, getD_modify _ _ _ (by simp), if_pos rfl, hn, Array.toList_setIfInBounds,
    List.drop_set, if_neg (Nat.lt_irrefl _), Array.toList_replicate, List.drop_replicate, hrest,
    List.replicate_succ, Nat.sub_self, List.set_cons_zero]

/-- What is left in the padding of a layout can have any total. -/
theorem exists_total_padding {op : Operator α} (hop : op.Lawful) (h : layout.Sound)
    (hnot : ¬layout.Full) (z : α) :
    ∃ levels, layout.Stores levels ∧ op.total (layout.leftover levels) = z := by
  rw [Full] at hnot
  push Not at hnot
  obtain ⟨k, hk, hne⟩ := hnot
  have hle : layout.count (k + 1) ≤ layout.count (k + 2) * layout.granularity.toNat :=
    count_le_mul h.whole.granularity_pos (k + 1)
  obtain ⟨n, hn⟩ := padding_polluted (e := op.identity) (z := z) h (Nat.lt_of_succ_lt hk)
    (Nat.lt_of_le_of_ne hle (Ne.symm hne))
  refine ⟨layout.polluted op.identity z k, stores_polluted, ?_⟩
  rw [leftover, hop.total_flatMap_single (z := z) (k := k), if_pos (by omega)]
  · rw [hn, hop.total_cons, hop.total_replicate, hop.combine_identity]
  · intro j hj
    obtain ⟨n, hn⟩ := layout.padding_polluted_of_ne (e := op.identity) (z := z) hj
    rw [hn, hop.total_replicate]

end Polluted

end Layout

end PrefixScan.Cascade
