import PrefixScan.Partition.Device
import PrefixScan.Proofs.Bracketing
import PrefixScan.Proofs.Rounding
import Mathlib.Data.List.Nodup

/-!
# Sweeps of a partition

A cube that loops over iterations walks the slots of its iteration space in row-major order: unit `u`
takes slot `t * localSize + u` in iteration `t`.  The item number of a slot is the slot number cut to a
word, so the visits of a sweep are those slots whose number, cut to a word, falls in the range.

The host rounds the quotient of range and unit count up; the device adds first and divides then.  Both
counts are right while range and unit count together fit the word space.  Past that the device's sum
wraps to less than one iteration, and nothing is visited; the host's count stays right, but as soon as
its last iteration has a slot past the word space that slot is item 0 again.

## Main definitions

* `Partition.due` — the visits that a partition stands for, one for each item of the range.

## Main results

* `Partition.sweep_eq_map` — the visits of a sweep, slot by slot.
* `Partition.sweeps_agree_iff` — when the sweeps with either count visit what is due.
-/

namespace PrefixScan.Partition

/-- The visit in a slot of the iteration space: its item, in the iteration and by the unit that the slot
belongs to. -/
def visitAt (p : Partition) (slot : Nat) : Visit :=
  ⟨BitVec.ofNat 32 slot, BitVec.ofNat 32 (slot / p.localSize.toNat),
    BitVec.ofNat 32 (slot % p.localSize.toNat)⟩

/-- The visits that a partition stands for: every item of the range once, item `i` in iteration
`i / localSize` by unit `i % localSize`. -/
def due (p : Partition) : List Visit := (List.range p.range.toNat).map p.visitAt

variable {p : Partition}

/-! ## Iteration counts -/

/-- The iterations that the device counts, if a further iteration fits. -/
theorem toNat_runtimeIterations (hfit : p.range.toNat + p.localSize.toNat ≤ 2 ^ 32)
    (hpos : 0 < p.localSize.toNat) :
    p.runtimeIterations.toNat =
      (p.range.toNat + p.localSize.toNat - 1) / p.localSize.toNat := by
  have hsum : (p.range + p.localSize - 1).toNat = p.range.toNat + p.localSize.toNat - 1 := by
    have hone : (1 : Index).toNat = 1 := rfl
    rw [BitVec.toNat_sub, BitVec.toNat_add, hone]
    omega
  rw [runtimeIterations, BitVec.toNat_udiv, hsum]

/-- If no further iteration fits, the sum of the device wraps, and it counts no iteration at all. -/
theorem runtimeIterations_of_wrap (hwrap : 2 ^ 32 < p.range.toNat + p.localSize.toNat) :
    p.runtimeIterations = 0 := by
  have hrange := p.range.isLt
  have hsize := p.localSize.isLt
  have hsum : (p.range + p.localSize - 1).toNat =
      p.range.toNat + p.localSize.toNat - 1 - 2 ^ 32 := by
    have hone : (1 : Index).toNat = 1 := rfl
    rw [BitVec.toNat_sub, BitVec.toNat_add, hone]
    omega
  apply BitVec.eq_of_toNat_eq
  rw [runtimeIterations, BitVec.toNat_udiv, hsum]
  exact Nat.div_eq_of_lt (by omega)

/-! ## Sweeps, slot by slot -/

theorem slot_ofNat (p : Partition) (t u : Nat) :
    p.slot (BitVec.ofNat 32 t) (BitVec.ofNat 32 u) =
      BitVec.ofNat 32 (t * p.localSize.toNat + u) := by
  rw [slot, BitVec.ofNat_add, BitVec.ofNat_mul, BitVec.ofNat_toNat, BitVec.setWidth_eq]

theorem covers_ofNat (p : Partition) (t u : Nat) :
    p.covers (BitVec.ofNat 32 t) (BitVec.ofNat 32 u) =
      decide ((t * p.localSize.toNat + u) % 2 ^ 32 < p.range.toNat) := by
  rw [covers, slot_ofNat, decide_eq_decide, BitVec.lt_def, BitVec.toNat_ofNat]

/-- A sweep visits the slots of its iterations whose number, cut to a word, falls in the range. -/
theorem sweep_eq_map (hpos : 0 < p.localSize.toNat) (iterations : Index) :
    p.sweep iterations =
      ((List.range (iterations.toNat * p.localSize.toNat)).filter
        (· % 2 ^ 32 < p.range.toNat)).map p.visitAt := by
  rw [sweep, ← Bracketing.flatMap_range_block, List.filter_flatMap, List.map_flatMap]
  apply List.flatMap_congr
  intro t _
  rw [List.filter_map, List.map_map, ← List.filterMap_eq_map, List.filterMap_filter]
  apply List.filterMap_congr
  intro u hu
  have hunit := List.mem_range.1 hu
  have hdiv : (t * p.localSize.toNat + u) / p.localSize.toNat = t := by
    rw [Nat.mul_comm, Nat.mul_add_div hpos, Nat.div_eq_of_lt hunit, Nat.add_zero]
  have hmod : (t * p.localSize.toNat + u) % p.localSize.toNat = u := by
    rw [Nat.mul_comm, Nat.mul_add_mod, Nat.mod_eq_of_lt hunit]
  simp only [covers_ofNat, slot_ofNat, Function.comp_apply, visitAt, hdiv, hmod]

theorem filter_lt_range {n limit : Nat} (h : limit ≤ n) :
    (List.range n).filter (· < limit) = List.range limit := by
  obtain ⟨rest, rfl⟩ := Nat.exists_eq_add_of_le h
  rw [List.range_add, List.filter_append, List.filter_eq_self.2 (by simp),
    List.filter_eq_nil_iff.2 (by simp), List.append_nil]

/-- A sweep whose slots fit the word space visits what is due, and in order, if it has a slot for every
item. -/
theorem sweep_eq_due (hpos : 0 < p.localSize.toNat) {iterations : Index}
    (hall : p.range.toNat ≤ iterations.toNat * p.localSize.toNat)
    (hfit : iterations.toNat * p.localSize.toNat ≤ 2 ^ 32) : p.sweep iterations = p.due := by
  have hexact : (List.range (iterations.toNat * p.localSize.toNat)).filter
      (· % 2 ^ 32 < p.range.toNat) = List.range p.range.toNat := by
    rw [← filter_lt_range hall]
    apply List.filter_congr
    intro slot hslot
    rw [Nat.mod_eq_of_lt (Nat.lt_of_lt_of_le (List.mem_range.1 hslot) hfit)]
  rw [sweep_eq_map hpos, hexact, due]

/-- The items of a sweep, each as often as it is visited. -/
theorem sweep_items (hpos : 0 < p.localSize.toNat) (iterations : Index) :
    (p.sweep iterations).map (·.item.toNat) =
      ((List.range (iterations.toNat * p.localSize.toNat)).filter
        (· % 2 ^ 32 < p.range.toNat)).map (· % 2 ^ 32) := by
  rw [sweep_eq_map hpos, List.map_map]
  apply List.map_congr_left
  intro slot _
  exact BitVec.toNat_ofNat slot 32

/-- A sweep visits items of the range only, however many iterations it takes. -/
theorem lt_of_mem_sweep_items (hpos : 0 < p.localSize.toNat) {iterations : Index} {i : Nat}
    (hi : i ∈ (p.sweep iterations).map (·.item.toNat)) : i < p.range.toNat := by
  rw [sweep_items hpos] at hi
  obtain ⟨slot, hslot, rfl⟩ := List.mem_map.1 hi
  exact of_decide_eq_true (List.mem_filter.1 hslot).2

theorem due_items (p : Partition) : p.due.map (·.item.toNat) = List.range p.range.toNat := by
  have hlt := p.range.isLt
  rw [due, List.map_map]
  conv_rhs => rw [← List.map_id (List.range _)]
  apply List.map_congr_left
  intro i hi
  rw [List.mem_range] at hi
  exact Nat.mod_eq_of_lt (show i < 2 ^ 32 by omega)

/-- No item is due twice. -/
theorem nodup_due (p : Partition) : p.due.Nodup := by
  apply List.Nodup.of_map (·.item.toNat)
  rw [due_items]
  exact List.nodup_range

/-- The first slot past the word space is a second visit to item 0. -/
theorem not_nodup_items_of_wrap (hrange : 0 < p.range.toNat) {iterations : Index}
    (hwrap : 2 ^ 32 < iterations.toNat * p.localSize.toNat) :
    ¬((p.sweep iterations).map (·.item.toNat)).Nodup := by
  have hpos : 0 < p.localSize.toNat := by
    by_contra hnone
    rw [Nat.eq_zero_of_not_pos hnone] at hwrap
    omega
  intro hnodup
  rw [sweep_items hpos] at hnodup
  have hfirst : 0 ∈ (List.range (iterations.toNat * p.localSize.toNat)).filter
      (· % 2 ^ 32 < p.range.toNat) :=
    List.mem_filter.2 ⟨List.mem_range.2 (by omega), by simpa using hrange⟩
  have hagain : 2 ^ 32 ∈ (List.range (iterations.toNat * p.localSize.toNat)).filter
      (· % 2 ^ 32 < p.range.toNat) :=
    List.mem_filter.2 ⟨List.mem_range.2 hwrap, by simpa using hrange⟩
  have hsame := List.inj_on_of_nodup_map hnodup hfirst hagain (by simp)
  omega

theorem not_perm_due_of_wrap (hrange : 0 < p.range.toNat) {iterations : Index}
    (hwrap : 2 ^ 32 < iterations.toNat * p.localSize.toNat) :
    ¬(p.sweep iterations).Perm p.due := by
  intro hperm
  have hitems := hperm.map (·.item.toNat)
  rw [due_items] at hitems
  exact not_nodup_items_of_wrap hrange hwrap (hitems.nodup_iff.2 List.nodup_range)

/-- Item 0 is visited by every sweep of at least one iteration. -/
theorem sweep_ne_nil (hpos : 0 < p.localSize.toNat) (hrange : 0 < p.range.toNat)
    {iterations : Index} (hcount : 0 < iterations.toNat) : p.sweep iterations ≠ [] := by
  apply List.ne_nil_of_mem (a := p.visitAt 0)
  rw [sweep_eq_map hpos]
  refine List.mem_map.2 ⟨0, List.mem_filter.2 ⟨List.mem_range.2 (Nat.mul_pos hcount hpos), ?_⟩, rfl⟩
  simpa using hrange

/-! ## Both counts -/

section Counts

variable (hpos : 0 < p.localSize.toNat) {iterations : Index}
  (hcount : iterations.toNat = (p.range.toNat + p.localSize.toNat - 1) / p.localSize.toNat)
include hpos hcount

/-- The host's count visits no item twice exactly if its slots fit the word space. -/
theorem nodup_items_iff :
    ((p.sweep iterations).map (·.item.toNat)).Nodup ↔
      iterations.toNat * p.localSize.toNat ≤ 2 ^ 32 := by
  constructor
  · intro hnodup
    by_contra hwrap
    have hrange : 0 < p.range.toNat := by
      by_contra hzero
      have hnone : iterations.toNat = 0 := by rw [hcount, Nat.div_eq_of_lt (by omega)]
      simp [hnone] at hwrap
    exact not_nodup_items_of_wrap hrange (by omega) hnodup
  · intro hfit
    rw [sweep_eq_due hpos (hcount ▸ le_ceil_mul hpos) hfit, due_items]
    exact List.nodup_range

/-- The host's count visits what is due exactly if its slots fit the word space. -/
theorem sweep_perm_due_iff :
    (p.sweep iterations).Perm p.due ↔ iterations.toNat * p.localSize.toNat ≤ 2 ^ 32 := by
  constructor
  · intro hperm
    have hitems := hperm.map (·.item.toNat)
    rw [due_items] at hitems
    exact (nodup_items_iff hpos hcount).1 (hitems.nodup_iff.2 List.nodup_range)
  · intro hfit
    rw [sweep_eq_due hpos (hcount ▸ le_ceil_mul hpos) hfit]

/-- While a further iteration fits, the counts are the same and their slots fit the word space. -/
theorem runtimeIterations_eq (hfit : p.range.toNat + p.localSize.toNat ≤ 2 ^ 32) :
    p.runtimeIterations = iterations ∧ iterations.toNat * p.localSize.toNat ≤ 2 ^ 32 := by
  have hle := Nat.div_mul_le_self (p.range.toNat + p.localSize.toNat - 1) p.localSize.toNat
  refine ⟨BitVec.eq_of_toNat_eq ((toNat_runtimeIterations hfit hpos).trans hcount.symm), ?_⟩
  rw [hcount]
  omega

end Counts

theorem sweep_of_wrap (hwrap : 2 ^ 32 < p.range.toNat + p.localSize.toNat) :
    p.sweep p.runtimeIterations = [] := by
  rw [runtimeIterations_of_wrap hwrap]
  rfl

/-- The host's count visits what is due exactly if its slots fit the word space, the device's count
exactly if range and unit count together do; beyond that the device visits nothing.  So the two agree
exactly where the device is right. -/
theorem sweeps_agree_iff (p : Partition) (hpos : 0 < p.localSize.toNat) :
    ∃ iterations, p.numIterations = .ok iterations ∧ p.due.Nodup ∧
      ((p.sweep iterations).Perm p.due ↔ iterations.toNat * p.localSize.toNat ≤ 2 ^ 32) ∧
      ((p.sweep p.runtimeIterations).Perm p.due ↔
        p.range.toNat + p.localSize.toNat ≤ 2 ^ 32) ∧
      ((p.sweep p.runtimeIterations).Perm (p.sweep iterations) ↔
        p.range.toNat + p.localSize.toNat ≤ 2 ^ 32) ∧
      (2 ^ 32 < p.range.toNat + p.localSize.toNat → p.sweep p.runtimeIterations = []) := by
  obtain ⟨iterations, hok, hcount⟩ := Word.ceilDiv_isOk p.range hpos
  have hsize := p.localSize.isLt
  have hhost := sweep_perm_due_iff hpos hcount
  refine ⟨iterations, hok, nodup_due p, hhost, ?_, ?_, sweep_of_wrap⟩
  · constructor
    · intro hperm
      by_contra hwrap
      rw [sweep_of_wrap (by omega)] at hperm
      have hlength := hperm.length_eq
      simp only [due, List.length_nil, List.length_map, List.length_range] at hlength
      omega
    · intro hfit
      obtain ⟨hequal, hslots⟩ := runtimeIterations_eq hpos hcount hfit
      rw [hequal]
      exact hhost.2 hslots
  · constructor
    · intro hperm
      by_contra hwrap
      rw [sweep_of_wrap (by omega)] at hperm
      have hiteration : 0 < iterations.toNat := hcount ▸ (lt_ceil_iff hpos).2 (by omega)
      exact sweep_ne_nil hpos (by omega) hiteration hperm.nil_eq.symm
    · intro hfit
      rw [(runtimeIterations_eq hpos hcount hfit).1]

/-- Ten items for four units, three iterations by either count. -/
theorem sweeps_agree_iff_ten :
    0 < (Partition.mk 10 4).localSize.toNat ∧
      (Partition.mk 10 4).runtimeIterations = 3 ∧
      ((Partition.mk 10 4).sweep (Partition.mk 10 4).runtimeIterations).Perm
        (Partition.mk 10 4).due := by
  obtain ⟨_, _, _, _, hdevice, _⟩ := sweeps_agree_iff (Partition.mk 10 4) (by decide)
  exact ⟨by decide, by decide, hdevice.2 (by decide)⟩

/-- One item less than the word space, for units of which there are two less: the device counts no
iteration and visits nothing; the host counts two, and in the second unit 2 visits item 0 again. -/
theorem sweeps_at_word_limit :
    (Partition.mk 4294967295 4294967294).numIterations = .ok 2 ∧
      (Partition.mk 4294967295 4294967294).runtimeIterations = 0 ∧
      ¬((Partition.mk 4294967295 4294967294).sweep 2).Perm
        (Partition.mk 4294967295 4294967294).due ∧
      ¬((Partition.mk 4294967295 4294967294).sweep
        (Partition.mk 4294967295 4294967294).runtimeIterations).Perm
        ((Partition.mk 4294967295 4294967294).sweep 2) := by
  have hzero : (Partition.mk 4294967295 4294967294).runtimeIterations = 0 := by decide
  refine ⟨by decide, hzero, not_perm_due_of_wrap (by decide) (by decide), ?_⟩
  intro hperm
  rw [hzero] at hperm
  exact sweep_ne_nil (by decide) (by decide) (by decide) hperm.nil_eq.symm

end PrefixScan.Partition
