import PrefixScan.Fault

/-!
# Words: positions, lengths and checked arithmetic

A position on the device is a 32-bit word (`Index`), a length on the host a 64-bit word (`Size`).
The ring operations of `BitVec` wrap, which is what the device does. The operations of this module
are the host's: each returns the exact result or the fault that explains why there is none.

## Main results

* `add_eq_ok` — a checked sum that succeeds is the exact natural number.
* `toNat_ceilQuot` — the rounded-up quotient is `⌈a / b⌉` for a positive divisor.
* `ceilQuot_lt` — dividing two or more items by two or more makes fewer of them.
-/

namespace PrefixScan

/-- A position or count on the device. -/
abbrev Index := BitVec 32

/-- A length on the host. -/
abbrev Size := BitVec 64

namespace Word

variable {w : Nat}

/-! ## Checked operations -/

/-- Exact sum. -/
def add (a b : BitVec w) : Except Fault (BitVec w) :=
  if a.uaddOverflow b then .error .addOverflow else .ok (a + b)

/-- Exact difference. -/
def sub (a b : BitVec w) : Except Fault (BitVec w) :=
  if b ≤ a then .ok (a - b) else .error .subtractOverflow

/-- Exact product. -/
def mul (a b : BitVec w) : Except Fault (BitVec w) :=
  if a.umulOverflow b then .error .multiplyOverflow else .ok (a * b)

/-- Quotient, rounded down. -/
def div (a b : BitVec w) : Except Fault (BitVec w) :=
  if b = 0 then .error .divideByZero else .ok (a / b)

/-- Remainder. -/
def rem (a b : BitVec w) : Except Fault (BitVec w) :=
  if b = 0 then .error .remainderByZero else .ok (a % b)

/-- Quotient rounded up, for a divisor known to be positive. -/
def ceilQuot (a b : BitVec w) : BitVec w :=
  if a % b = 0 then a / b else a / b + 1

/-- Quotient, rounded up. -/
def ceilDiv (a b : BitVec w) : Except Fault (BitVec w) :=
  if b = 0 then .error .divideByZero else .ok (ceilQuot a b)

/-- The least multiple of `b` that is at least `a`. -/
def roundUp (a b : BitVec w) : Except Fault (BitVec w) := do
  let r ← rem a b
  if r = 0 then return a else add a (b - r)

/-! ## What success means -/

theorem add_eq_ok {a b c : BitVec w} (h : add a b = .ok c) : c.toNat = a.toNat + b.toNat := by
  unfold add at h
  split at h
  · cases h
  · rename_i hfits
    cases h
    exact BitVec.toNat_add_of_not_uaddOverflow hfits

/-! ## The rounded-up quotient -/

theorem toNat_ceilQuot (a b : BitVec w) (hb : 0 < b.toNat) :
    (ceilQuot a b).toNat = (a.toNat + b.toNat - 1) / b.toNat := by
  have ha := a.isLt
  have hdm := Nat.div_add_mod a.toNat b.toNat
  have hml := Nat.mod_lt a.toNat hb
  unfold ceilQuot
  split
  · rename_i h
    have hz : a.toNat % b.toNat = 0 := by
      have := congrArg BitVec.toNat h
      simpa [BitVec.toNat_umod] using this
    rw [BitVec.toNat_udiv]
    symm
    apply Nat.div_eq_of_lt_le
    · rw [Nat.mul_comm]; omega
    · rw [Nat.add_mul, Nat.one_mul, Nat.mul_comm]; omega
  · rename_i h
    have hz : a.toNat % b.toNat ≠ 0 := by
      intro hz
      apply h
      apply BitVec.eq_of_toNat_eq
      simpa [BitVec.toNat_umod] using hz
    have hq : a.toNat / b.toNat + 1 ≤ a.toNat := by
      have hle : a.toNat / b.toNat ≤ b.toNat * (a.toNat / b.toNat) := Nat.le_mul_of_pos_left _ hb
      omega
    rw [BitVec.toNat_add, BitVec.toNat_udiv]
    have hw : 1 < 2 ^ w := by omega
    have hone : (1 : BitVec w).toNat = 1 := by
      have : (1 : BitVec w).toNat = 1 % 2 ^ w := by simp
      rw [this, Nat.mod_eq_of_lt hw]
    rw [hone, Nat.mod_eq_of_lt (by omega)]
    symm
    apply Nat.div_eq_of_lt_le
    · rw [Nat.add_mul, Nat.one_mul, Nat.mul_comm]; omega
    · rw [Nat.add_mul, Nat.add_mul, Nat.one_mul, Nat.mul_comm]; omega

theorem ceilQuot_lt {a b : BitVec w} (ha : 2 ≤ a.toNat) (hb : 2 ≤ b.toNat) :
    (ceilQuot a b).toNat < a.toNat := by
  rw [toNat_ceilQuot a b (by omega)]
  apply Nat.div_lt_of_lt_mul
  have : 2 * a.toNat ≤ b.toNat * a.toNat := Nat.mul_le_mul_right _ hb
  have h2 : b.toNat * 2 ≤ b.toNat * a.toNat := Nat.mul_le_mul_left _ ha
  omega

theorem ceilDiv_eq_ok {a b c : BitVec w} (h : ceilDiv a b = .ok c) : c = ceilQuot a b := by
  unfold ceilDiv at h
  split at h
  · cases h
  · cases h; rfl

end Word

end PrefixScan
