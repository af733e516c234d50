import PrefixScan.Word
import Mathlib.Algebra.Group.Nat.Defs
import Mathlib.Algebra.Order.Floor.Div
import Mathlib.Data.Nat.Basic

/-!
# Rounding up

Lengths are rounded up in two ways: to a number of blocks, and to whole blocks.  Both are the host's
checked arithmetic; this module gives their exact values and says when they do not fault.

## Main results

* `lt_ceil_iff` — the rounded-up quotient counts the block starts below a length.
* `ceilDiv_ceilDiv` — blocks of blocks are blocks.
* `Word.add_of_lt`, `Word.add_of_le`, `Word.mul_of_lt` — when a sum and a product fit, and when a sum
  does not.
* `Word.ceilDiv_isOk`, `Word.roundUp_isOk` — the checked operations return the exact value.
* `Word.roundUp_of_lt`, `Word.roundUp_of_le` — when rounding up faults.
-/

namespace PrefixScan

/-- The blocks of `b` that a length `a` takes are those that start below it. -/
theorem lt_ceil_iff {a b t : Nat} (hb : 0 < b) : t < (a + b - 1) / b ↔ t * b < a := by
  rw [Nat.lt_iff_add_one_le, Nat.le_div_iff_mul_le hb, Nat.succ_mul]
  omega

theorem le_ceil_mul {a b : Nat} (hb : 0 < b) : a ≤ (a + b - 1) / b * b := by
  have hlt := (lt_ceil_iff (a := a) (t := (a + b - 1) / b) hb).not.1 (Nat.lt_irrefl _)
  omega

theorem ceil_mul_of_dvd {a b : Nat} (hb : 0 < b) (h : b ∣ a) : (a + b - 1) / b * b = a := by
  obtain ⟨k, rfl⟩ := h
  have hquot : (b * k + b - 1) / b = k := by
    rw [Nat.add_sub_assoc hb, Nat.mul_add_div hb, Nat.div_eq_of_lt (by omega), Nat.add_zero]
  rw [hquot, Nat.mul_comm]

/-- A length that is no multiple is rounded up by what its last block lacks. -/
theorem ceil_mul_of_mod_ne {a b : Nat} (hb : 0 < b) (h : a % b ≠ 0) :
    (a + b - 1) / b * b = a + (b - a % b) := by
  have hsplit := Nat.div_add_mod' a b
  have hmod := Nat.mod_lt a hb
  have hquot : (a + b - 1) / b = a / b + 1 := by
    apply Nat.div_eq_of_lt_le
    · rw [Nat.succ_mul]; omega
    · rw [Nat.succ_mul, Nat.succ_mul]; omega
  rw [hquot, Nat.succ_mul]
  omega

/-- Rounding up to blocks of two or more never needs more room than the length and the block size have
themselves: what the division takes away makes up for the block that is added. -/
theorem ceil_add_le {a b limit : Nat} (hb : 2 ≤ b) (ha : a < limit) (hlimit : b < limit) :
    (a + b - 1) / b + b ≤ limit := by
  have hle := Nat.div_mul_le_self (a + b - 1) b
  rcases hblocks : (a + b - 1) / b with _ | _ | more
  · omega
  · omega
  · rw [hblocks, Nat.add_mul, Nat.add_mul] at hle
    have hmore : more ≤ more * b := Nat.le_mul_of_pos_right _ (by omega)
    omega

/-- Rounding up twice is rounding up by the product. -/
theorem ceilDiv_ceilDiv {a b : Nat} (ha : 0 < a) (hb : 0 < b) (n : Nat) :
    n ⌈/⌉ a ⌈/⌉ b = n ⌈/⌉ (a * b) := by
  apply eq_of_forall_ge_iff
  intro c
  rw [ceilDiv_le_iff_le_mul hb, ceilDiv_le_iff_le_mul ha, ceilDiv_le_iff_le_mul (Nat.mul_pos ha hb),
    Nat.mul_assoc]

/-- The block with an item, if blocks have `size` items, and the place of the item in it. -/
theorem block_of_range {size n i : Nat} (hlow : n * size ≤ i) (hhigh : i < (n + 1) * size) :
    i / size = n ∧ i % size = i - n * size := by
  have hdiv : i / size = n := Nat.div_eq_of_lt_le hlow hhigh
  have hsplit := Nat.div_add_mod' i size
  rw [hdiv] at hsplit
  exact ⟨hdiv, by omega⟩

namespace Word

variable {w : Nat} {a b c : BitVec w}

/-! ### Sums and products -/

theorem add_of_lt (h : a.toNat + b.toNat < 2 ^ w) : add a b = .ok (a + b) := by
  have hfits : ¬a.uaddOverflow b := by
    rw [BitVec.uaddOverflow, decide_eq_true_iff]
    omega
  rw [add, if_neg hfits]

theorem add_of_le (h : 2 ^ w ≤ a.toNat + b.toNat) :
    add a b = .error .addOverflow := by
  have hover : a.uaddOverflow b := by
    rw [BitVec.uaddOverflow, decide_eq_true_iff]
    exact h
  rw [add, if_pos hover]

theorem mul_of_lt (h : a.toNat * b.toNat < 2 ^ w) : mul a b = .ok (a * b) := by
  have hfits : ¬a.umulOverflow b := by
    rw [BitVec.umulOverflow, decide_eq_true_iff]
    omega
  rw [mul, if_neg hfits]

/-! ### Quotients -/

theorem ne_zero_of_toNat_pos (hb : 0 < b.toNat) : b ≠ 0 := by
  rintro rfl
  simp at hb

theorem toNat_sub_one (ha : 0 < a.toNat) : (a - 1).toNat = a.toNat - 1 := by
  have hone : (1 : BitVec w).toNat = 1 := Nat.mod_eq_of_lt (Nat.lt_of_le_of_lt ha a.isLt)
  rw [BitVec.toNat_sub_of_le (BitVec.le_def.2 (hone ▸ ha)), hone]

theorem ceilDiv_isOk (a : BitVec w) (hb : 0 < b.toNat) :
    ∃ c, ceilDiv a b = .ok c ∧ c.toNat = (a.toNat + b.toNat - 1) / b.toNat :=
  ⟨ceilQuot a b, by rw [ceilDiv, if_neg (ne_zero_of_toNat_pos hb)], toNat_ceilQuot a b hb⟩

theorem mod_eq_zero_iff (a b : BitVec w) : a % b = 0 ↔ a.toNat % b.toNat = 0 := by
  rw [← BitVec.toNat_inj, BitVec.toNat_umod]
  simp

/-- The increment that rounds a quotient up always fits: checking it makes no difference. -/
theorem ceilDiv_eq_increment (a b : BitVec w) :
    ceilDiv a b = (do
      let quotient ← div a b
      let rest ← rem a b
      if rest = 0 then return quotient else add quotient 1) := by
  by_cases hzero : b = 0
  · simp only [ceilDiv, div, if_pos hzero]
    rfl
  · have hb : 0 < b.toNat := Nat.pos_of_ne_zero fun h => hzero (BitVec.eq_of_toNat_eq (by simpa using h))
    simp only [ceilDiv, div, rem, if_neg hzero, ceilQuot]
    show _ = if a % b = 0 then .ok (a / b) else add (a / b) 1
    by_cases hdvd : a % b = 0
    · rw [if_pos hdvd, if_pos hdvd]
    · have hrest : a.toNat % b.toNat ≠ 0 := fun h => hdvd ((mod_eq_zero_iff a b).2 h)
      have htwo : 2 ≤ b.toNat := by
        by_contra hone
        have hb : b.toNat = 1 := by omega
        rw [hb, Nat.mod_one] at hrest
        exact hrest rfl
      have hless : a.toNat / b.toNat < a.toNat := by
        apply Nat.div_lt_self _ htwo
        by_contra hnone
        rw [Nat.eq_zero_of_not_pos hnone, Nat.zero_mod] at hrest
        exact hrest rfl
      have hone : (1 : BitVec w).toNat = 1 := Nat.mod_eq_of_lt (Nat.lt_of_lt_of_le htwo b.isLt.le)
      rw [if_neg hdvd, if_neg hdvd, add_of_lt (by rw [BitVec.toNat_udiv, hone]; omega)]

/-! ### Whole blocks -/

/-- Rounding up a length that is a multiple leaves it alone, otherwise it adds what is lacking. -/
theorem roundUp_eq (a : BitVec w) (hb : 0 < b.toNat) :
    roundUp a b = if a % b = 0 then .ok a else add a (b - a % b) := by
  rw [roundUp, rem, if_neg (ne_zero_of_toNat_pos hb)]
  rfl

theorem toNat_lack (a : BitVec w) (hb : 0 < b.toNat) :
    (b - a % b).toNat = b.toNat - a.toNat % b.toNat := by
  have hmod := Nat.mod_lt a.toNat hb
  have hle : a % b ≤ b := BitVec.le_def.2 (by rw [BitVec.toNat_umod]; omega)
  rw [BitVec.toNat_sub_of_le hle, BitVec.toNat_umod]

theorem roundUp_eq_ok (hb : 0 < b.toNat) (h : roundUp a b = .ok c) :
    c.toNat = (a.toNat + b.toNat - 1) / b.toNat * b.toNat := by
  rw [roundUp_eq a hb] at h
  split at h
  · rename_i hzero
    cases h
    exact (ceil_mul_of_dvd hb (Nat.dvd_of_mod_eq_zero ((mod_eq_zero_iff _ _).1 hzero))).symm
  · rename_i hzero
    rw [add_eq_ok h, toNat_lack a hb,
      ceil_mul_of_mod_ne hb fun e => hzero ((mod_eq_zero_iff _ _).2 e)]

/-- There is no fault if the rounded-up length fits. -/
theorem roundUp_of_lt (hb : 0 < b.toNat)
    (hfits : (a.toNat + b.toNat - 1) / b.toNat * b.toNat < 2 ^ w) :
    ∃ c, roundUp a b = .ok c ∧ c.toNat = (a.toNat + b.toNat - 1) / b.toNat * b.toNat := by
  have hok : ∃ c, roundUp a b = .ok c := by
    rw [roundUp_eq a hb]
    by_cases hzero : a % b = 0
    · exact ⟨a, if_pos hzero⟩
    · have hne : a.toNat % b.toNat ≠ 0 := fun e => hzero ((mod_eq_zero_iff _ _).2 e)
      rw [ceil_mul_of_mod_ne hb hne] at hfits
      exact ⟨a + (b - a % b), by rw [if_neg hzero, add_of_lt (by rw [toNat_lack a hb]; exact hfits)]⟩
  obtain ⟨c, hc⟩ := hok
  exact ⟨c, hc, roundUp_eq_ok hb hc⟩

/-- If the rounded-up length does not fit, the sum that makes it faults. -/
theorem roundUp_of_le (hb : 0 < b.toNat)
    (hover : 2 ^ w ≤ (a.toNat + b.toNat - 1) / b.toNat * b.toNat) :
    roundUp a b = .error .addOverflow := by
  have hlt := a.isLt
  have hzero : ¬a % b = 0 := by
    intro h
    rw [ceil_mul_of_dvd hb (Nat.dvd_of_mod_eq_zero ((mod_eq_zero_iff _ _).1 h))] at hover
    omega
  have hne : a.toNat % b.toNat ≠ 0 := fun e => hzero ((mod_eq_zero_iff _ _).2 e)
  rw [ceil_mul_of_mod_ne hb hne] at hover
  rw [roundUp_eq a hb, if_neg hzero, add_of_le (by rw [toNat_lack a hb]; exact hover)]

/-- There is no fault if a whole further block fits. -/
theorem roundUp_isOk (hb : 0 < b.toNat) (hfit : a.toNat + b.toNat ≤ 2 ^ w) :
    ∃ c, roundUp a b = .ok c ∧ c.toNat = (a.toNat + b.toNat - 1) / b.toNat * b.toNat := by
  have hle := Nat.div_mul_le_self (a.toNat + b.toNat - 1) b.toNat
  exact roundUp_of_lt hb (by omega)

end Word

end PrefixScan
