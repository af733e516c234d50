import Mathlib.Data.List.Range

/-!
# Orders of combination

The combine operation of a scan need not be associative, so the value of a prefix depends on how
its combinations nest.  A `Bracketing` is such a nesting, apart from any values: a binary tree whose
leaves are item numbers.  What a scan computes for an item is the value of one fixed bracketing, and
which one it is depends on the shape of planes and blocks only.

Planes within a cube and blocks within a buffer follow one scheme, `blockwise`: each block is
combined on its own, the totals of the blocks are combined by the same scheme, and a block is
preceded by the total of the blocks before it.

## Main definitions

* `Bracketing`, `Bracketing.items`, `Bracketing.eval` — nestings, their leaves and their values.
* `Bracketing.chain` — everything from the left.
* `Bracketing.blockwise` — the scheme of blocks.
* `Bracketing.ofCube`, `Bracketing.ofScan` — the orders of a cube scan and of a hierarchical scan.

## Main results

* `items_ofScan` — the bracketing of item `i` consists of the items `0..i`, each once and in order.
* `eval_eq_foldl` — for an associative operation the nesting does not matter.
-/

namespace PrefixScan

/-- A nesting of combinations of numbered items. -/
inductive Bracketing
  | item (index : Nat)
  | join (earlier later : Bracketing)
deriving DecidableEq, Repr

namespace Bracketing

variable {α : Type} {f : α → α → α}

/-- The items that are combined, from first to last. -/
def items : Bracketing → List Nat
  | item index => [index]
  | join earlier later => earlier.items ++ later.items

/-- The value of a nesting, given the values of the items. -/
def eval (f : α → α → α) (x : Nat → α) : Bracketing → α
  | item index => x index
  | join earlier later => f (earlier.eval f x) (later.eval f x)

/-- The nesting with a nesting in place of each item. -/
def substitute (g : Nat → Bracketing) : Bracketing → Bracketing
  | item index => g index
  | join earlier later => join (earlier.substitute g) (later.substitute g)

/-- The nesting with all item numbers moved up by `start`. -/
def shift (start : Nat) (t : Bracketing) : Bracketing :=
  t.substitute fun index => item (start + index)

/-! ## Values -/

/-- A value depends on the items of the nesting only. -/
theorem eval_congr {x y : Nat → α} {t : Bracketing} (hxy : ∀ i ∈ t.items, x i = y i) :
    t.eval f x = t.eval f y := by
  induction t with
  | item index => exact hxy index (by simp [items])
  | join earlier later ihEarlier ihLater =>
      have hEarlier := ihEarlier fun i hi => hxy i (by simp [items, hi])
      have hLater := ihLater fun i hi => hxy i (by simp [items, hi])
      simp only [eval, hEarlier, hLater]

theorem eval_substitute (x : Nat → α) (g : Nat → Bracketing) (t : Bracketing) :
    (t.substitute g).eval f x = t.eval f fun i => (g i).eval f x := by
  induction t with
  | item index => rfl
  | join earlier later ihEarlier ihLater => simp only [substitute, eval, ihEarlier, ihLater]

theorem eval_shift (x : Nat → α) (start : Nat) (t : Bracketing) :
    (t.shift start).eval f x = t.eval f fun i => x (start + i) :=
  eval_substitute x _ t

theorem items_substitute (g : Nat → Bracketing) (t : Bracketing) :
    (t.substitute g).items = t.items.flatMap fun i => (g i).items := by
  induction t with
  | item index => simp [substitute, items]
  | join earlier later ihEarlier ihLater =>
      simp only [substitute, items, ihEarlier, ihLater, List.flatMap_append]

theorem items_shift (start : Nat) (t : Bracketing) :
    (t.shift start).items = t.items.map (start + ·) := by
  rw [shift, items_substitute, List.map_eq_flatMap]
  rfl

theorem items_ne_nil (t : Bracketing) : t.items ≠ [] := by
  induction t with
  | item index => simp [items]
  | join earlier later ihEarlier _ => simp [items, ihEarlier]

/-! ## Associative operations -/

section Associative

variable (hf : ∀ a b c, f (f a b) c = f a (f b c))
include hf

/-- Combining with a nesting on the right is combining with its items one after the other. -/
theorem combine_eval (x : Nat → α) (t : Bracketing) (a : α) :
    f a (t.eval f x) = t.items.foldl (fun acc i => f acc (x i)) a := by
  induction t generalizing a with
  | item index => rfl
  | join earlier later ihEarlier ihLater =>
      calc f a ((join earlier later).eval f x)
          = f (f a (earlier.eval f x)) (later.eval f x) := (hf _ _ _).symm
        _ = later.items.foldl (fun acc i => f acc (x i)) (f a (earlier.eval f x)) := ihLater _
        _ = (join earlier later).items.foldl (fun acc i => f acc (x i)) a := by
          rw [ihEarlier, items, List.foldl_append]

/-- For an associative operation a nesting has the value of the fold of its items. -/
theorem eval_eq_foldl (x : Nat → α) {t : Bracketing} {first : Nat} {rest : List Nat}
    (ht : t.items = first :: rest) :
    t.eval f x = rest.foldl (fun acc i => f acc (x i)) (x first) := by
  induction t generalizing first rest with
  | item index =>
      simp only [items, List.cons.injEq] at ht
      obtain ⟨rfl, rfl⟩ := ht
      rfl
  | join earlier later ihEarlier _ =>
      rw [items] at ht
      cases hItems : earlier.items with
      | nil => exact absurd hItems (items_ne_nil earlier)
      | cons first' rest' =>
          rw [hItems, List.cons_append, List.cons.injEq] at ht
          obtain ⟨rfl, rfl⟩ := ht
          rw [eval, combine_eval hf, ihEarlier hItems, List.foldl_append]

end Associative

/-! ## The scheme of blocks -/

/-- The items `0..last`, combined from the left. -/
def chain : (last : Nat) → Bracketing
  | 0 => item 0
  | last + 1 => join (chain last) (item (last + 1))

/-- The order for item `i` when items come in blocks of `size` and `inner r` is the order for item
`r` of a block.  An item outside of the first block is preceded by the total of the blocks before
its own, which is an item of the same scheme, one level up. -/
def blockwise (size : Nat) (inner : Nat → Bracketing) (i : Nat) : Bracketing :=
  if h : 0 < size ∧ size ≤ i then
    have : i / size - 1 < i := by
      have := Nat.div_le_self i size
      omega
    join
      ((blockwise size inner (i / size - 1)).substitute fun b =>
        (inner (size - 1)).shift (b * size))
      ((inner (i % size)).shift (i / size * size))
  else inner i
termination_by i

/-- The order in which a cube with planes of `planeDim` units combines the items of its range. -/
def ofCube (planeDim : Nat) : Nat → Bracketing := blockwise planeDim chain

/-- The order in which a hierarchical scan in blocks of `granularity` elements combines them. -/
def ofScan (planeDim granularity : Nat) : Nat → Bracketing :=
  blockwise granularity (ofCube planeDim)

theorem items_chain (last : Nat) : (chain last).items = List.range (last + 1) := by
  induction last with
  | zero => rfl
  | succ last ih => rw [chain, items, ih, items, ← List.range_succ]

/-- A chain folds its items from the left, for any operation. -/
theorem eval_chain (x : Nat → α) (last : Nat) :
    (chain last).eval f x = (List.range' 1 last).foldl (fun acc i => f acc (x i)) (x 0) := by
  induction last with
  | zero => rfl
  | succ last ih =>
      rw [chain, eval, ih, List.range'_1_concat, List.foldl_concat, Nat.add_comm 1 last]
      rfl

section Blockwise

variable {size : Nat} {inner : Nat → Bracketing}

theorem blockwise_of_lt {i : Nat} (h : i < size) : blockwise size inner i = inner i := by
  rw [blockwise, dif_neg (by omega)]

theorem blockwise_of_le {i : Nat} (hpos : 0 < size) (h : size ≤ i) :
    blockwise size inner i =
      join
        ((blockwise size inner (i / size - 1)).substitute fun b =>
          (inner (size - 1)).shift (b * size))
        ((inner (i % size)).shift (i / size * size)) := by
  rw [blockwise, dif_pos ⟨hpos, h⟩]

/-- The value of an item outside of the first block: the scan of the block totals at the block
before its own, combined with the value within its block. -/
theorem eval_blockwise_of_le (x : Nat → α) {i : Nat} (hpos : 0 < size) (h : size ≤ i) :
    (blockwise size inner i).eval f x =
      f ((blockwise size inner (i / size - 1)).eval f fun b =>
          (inner (size - 1)).eval f fun j => x (b * size + j))
        ((inner (i % size)).eval f fun j => x (i / size * size + j)) := by
  simp only [blockwise_of_le hpos h, eval, eval_substitute, eval_shift]

/-- Blocks of consecutive items, one after the other, are consecutive items. -/
theorem flatMap_range_block (size blocks : Nat) :
    ((List.range blocks).flatMap fun b => (List.range size).map (b * size + ·)) =
      List.range (blocks * size) := by
  induction blocks with
  | zero => simp
  | succ blocks ih =>
      rw [List.range_succ, List.flatMap_append, ih, Nat.succ_mul, List.range_add]
      simp

/-- If each inner order takes the items of its block in order, so does the scheme of blocks. -/
theorem items_blockwise (hpos : 0 < size)
    (hinner : ∀ r < size, (inner r).items = List.range (r + 1)) (i : Nat) :
    (blockwise size inner i).items = List.range (i + 1) := by
  induction i using Nat.strong_induction_on with
  | _ i ih =>
      by_cases h : size ≤ i
      · have hquot : 1 ≤ i / size := (Nat.one_le_div_iff hpos).2 h
        have hdiv := Nat.div_le_self i size
        have hmod := Nat.mod_lt i hpos
        have hbefore := ih (i / size - 1) (by omega)
        rw [Nat.sub_add_cancel hquot] at hbefore
        have hlast : size - 1 + 1 = size := by omega
        rw [blockwise_of_le hpos h, items, items_substitute, hbefore, items_shift,
          hinner _ hmod]
        simp only [items_shift, hinner (size - 1) (by omega), hlast]
        rw [flatMap_range_block, ← List.range_add, ← Nat.add_assoc, Nat.div_add_mod']
      · rw [blockwise_of_lt (by omega), hinner i (by omega)]

end Blockwise

/-- A cube combines the items up to its own, each once and in order. -/
theorem items_ofCube {planeDim : Nat} (hpos : 0 < planeDim) (i : Nat) :
    (ofCube planeDim i).items = List.range (i + 1) :=
  items_blockwise hpos (fun r _ => items_chain r) i

/-- A hierarchical scan combines the elements up to an element's own, each once and in order. -/
theorem items_ofScan {planeDim granularity : Nat} (hplane : 0 < planeDim) (hgran : 0 < granularity)
    (i : Nat) : (ofScan planeDim granularity i).items = List.range (i + 1) :=
  items_blockwise hgran (fun r _ => items_ofCube hplane r) i

end Bracketing

end PrefixScan
