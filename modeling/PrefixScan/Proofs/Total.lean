import PrefixScan.Element
import PrefixScan.Proofs.Bracketing

/-!
# Totals

For an associative operation with an identity, the combination of many values is the fold of their
list.  Integers that wrap have such operations; the nesting of their combinations, and values equal to
the identity, do not show in a result.

## Main definitions

* `Operator.total` — the combination of a list of values.
* `Operator.Lawful` — the laws of a monoid.

## Main results

* `Operator.Lawful.total_append` — totals of parts.
* `ElementType.lawful` — sums and products of integers are lawful.
-/

namespace PrefixScan

open Bracketing

namespace Operator

variable {α : Type} {op : Operator α}

/-- The combination of the values of a list, from first to last. -/
def total (op : Operator α) (values : List α) : α := values.foldl op.combine op.identity

/-- The operation is associative, and padding makes no difference on either side. -/
structure Lawful (op : Operator α) : Prop where
  assoc : ∀ a b c, op.combine (op.combine a b) c = op.combine a (op.combine b c)
  identity_combine : ∀ a, op.combine op.identity a = a
  combine_identity : ∀ a, op.combine a op.identity = a

namespace Lawful

variable (h : op.Lawful)
include h

theorem foldl_eq (values : List α) (a : α) :
    values.foldl op.combine a = op.combine a (op.total values) := by
  induction values generalizing a with
  | nil => exact (h.combine_identity a).symm
  | cons b values ih =>
      have hTotal : op.total (b :: values) = op.combine b (op.total values) := by
        rw [total, List.foldl_cons, h.identity_combine, ih]
      rw [List.foldl_cons, ih, hTotal, h.assoc]

theorem total_append (values values' : List α) :
    op.total (values ++ values') = op.combine (op.total values) (op.total values') := by
  rw [total, List.foldl_append, h.foldl_eq values']
  rfl

theorem total_cons (a : α) (values : List α) :
    op.total (a :: values) = op.combine a (op.total values) := by
  rw [total, List.foldl_cons, h.identity_combine, h.foldl_eq]

theorem total_singleton (a : α) : op.total [a] = a := h.identity_combine a

theorem total_replicate (n : Nat) : op.total (List.replicate n op.identity) = op.identity := by
  induction n with
  | zero => rfl
  | succ n ih => rw [List.replicate_succ, h.total_cons, ih, h.identity_combine]

theorem total_take_replicate (n : Nat) :
    op.total ((Array.replicate n op.identity).toList.take n) = op.identity := by
  rw [Array.toList_replicate, List.take_replicate, h.total_replicate]

/-- The total of identities, one of which was replaced. -/
theorem total_replicate_set {n k : Nat} (hk : k < n) (z : α) :
    op.total ((List.replicate n op.identity).set k z) = z := by
  rw [List.set_eq_take_append_cons_drop, if_pos (by simpa using hk), List.take_replicate,
    List.drop_replicate, h.total_append, h.total_cons, h.total_replicate, h.total_replicate,
    h.combine_identity, h.identity_combine]

/-- Of a row of lists, only one of which has a total other than the identity, that total is left. -/
theorem total_flatMap_single {f : Nat → List α} {z : α} {k : Nat} (hk : op.total (f k) = z)
    (hf : ∀ j, j ≠ k → op.total (f j) = op.identity) (n : Nat) :
    op.total ((List.range n).flatMap f) = if k < n then z else op.identity := by
  induction n with
  | zero => rfl
  | succ n ih =>
      rw [List.range_succ, List.flatMap_append, h.total_append, ih, List.flatMap_singleton]
      rcases Nat.lt_trichotomy k n with hlt | rfl | hgt
      · rw [if_pos hlt, if_pos (by omega), hf n (by omega), h.combine_identity]
      · rw [if_neg (by omega), if_pos (by omega), hk, h.identity_combine]
      · rw [if_neg (by omega), if_neg (by omega), hf n (by omega), h.combine_identity]

/-- A nesting has the value of the total of its items. -/
theorem eval_eq_total (x : Nat → α) (t : Bracketing) :
    t.eval op.combine x = op.total (t.items.map x) := by
  rw [total, List.foldl_map, ← combine_eval h.assoc, h.identity_combine]

end Lawful

end Operator

/-! ## Integers -/

/-- Sums and products of integers that wrap are associative. -/
theorem ElementType.combine_assoc {signed : Bool} {bytes : Nat}
    {op : Operator (ElementType.int signed bytes).Carrier}
    (hop : op = (ElementType.int signed bytes).sum ∨ op = (ElementType.int signed bytes).prod)
    (a b c : (ElementType.int signed bytes).Carrier) :
    op.combine (op.combine a b) c = op.combine a (op.combine b c) := by
  rcases hop with rfl | rfl
  · exact BitVec.add_assoc a b c
  · exact BitVec.mul_assoc a b c

/-- Sums and products of integers that wrap are lawful. -/
theorem ElementType.lawful {signed : Bool} {bytes : Nat}
    {op : Operator (ElementType.int signed bytes).Carrier}
    (hop : op = (ElementType.int signed bytes).sum ∨ op = (ElementType.int signed bytes).prod) :
    op.Lawful := by
  refine ⟨ElementType.combine_assoc hop, ?_, ?_⟩
  · rcases hop with rfl | rfl
    · exact BitVec.zero_add
    · exact BitVec.one_mul
  · rcases hop with rfl | rfl
    · exact BitVec.add_zero
    · exact BitVec.mul_one

/-- An element of at least one byte need not be the identity. -/
theorem ElementType.exists_ne_identity {signed : Bool} {bytes : Nat} (hbytes : 0 < bytes)
    {op : Operator (ElementType.int signed bytes).Carrier}
    (hop : op = (ElementType.int signed bytes).sum ∨ op = (ElementType.int signed bytes).prod) :
    ∃ z, z ≠ op.identity := by
  have hne : (1 : BitVec (8 * bytes)) ≠ 0 := by
    intro h
    have hbits := BitVec.one_eq_zero_iff.1 h
    omega
  rcases hop with rfl | rfl
  · exact ⟨(1 : BitVec (8 * bytes)), hne⟩
  · exact ⟨(0 : BitVec (8 * bytes)), hne.symm⟩

end PrefixScan
