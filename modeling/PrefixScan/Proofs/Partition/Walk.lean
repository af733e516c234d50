import PrefixScan.Proofs.Partition.Sweep

/-!
# The lazy walk over a partition

The walk looks at the slots of the iteration space one after the other and yields the items that it finds.
The slots of the range come first, and each of them has an item; so as long as no more items are wanted than
there are, the walk is where the items are.  If one more is wanted, it goes on through the idle slots of the
last iteration, and it faults at the first slot that does not fit a word, if there is one.

## Main results

* `Partition.item_slot` — what a slot holds.
* `Partition.visitsFrom_items` — the walk over the items.
* `Partition.visitsFrom_idle` — the walk over idle slots.
* `Partition.visits_enumerate` — all visits in order, and what follows them.
-/

namespace PrefixScan.Partition

variable {p : Partition}

/-! ## Slots -/

theorem toNat_visitAt {slot : Nat} (hslot : slot < 2 ^ 32) :
    (p.visitAt slot).item.toNat = slot ∧
      (p.visitAt slot).iteration.toNat = slot / p.localSize.toNat ∧
      (p.visitAt slot).unit.toNat = slot % p.localSize.toNat := by
  have hiteration := Nat.div_le_self slot p.localSize.toNat
  have hunit := Nat.mod_le slot p.localSize.toNat
  simp only [visitAt, BitVec.toNat_ofNat]
  exact ⟨Nat.mod_eq_of_lt hslot, Nat.mod_eq_of_lt (by omega), Nat.mod_eq_of_lt (by omega)⟩

theorem visitsFrom_zero (slots slot : Nat) : p.visitsFrom slots slot 0 = .ok [] := by
  cases slots <;> rfl

section Walk

variable (hpos : 0 < p.localSize.toNat)
include hpos

/-- A slot holds the item of its number if this is in the range, and none if it is not, unless the number
does not fit a word. -/
theorem item_slot {slot : Nat} (hbase : slot / p.localSize.toNat * p.localSize.toNat < 2 ^ 32) :
    p.item (BitVec.ofNat 32 (slot / p.localSize.toNat)) (BitVec.ofNat 32 (slot % p.localSize.toNat)) =
      if slot < 2 ^ 32 then
        .ok (if slot < p.range.toNat then some (BitVec.ofNat 32 slot) else none)
      else .error .addOverflow := by
  have hsplit := Nat.div_add_mod' slot p.localSize.toNat
  have hless := Nat.mod_lt slot hpos
  have hsize := p.localSize.isLt
  have hiterations : slot / p.localSize.toNat ≤ slot / p.localSize.toNat * p.localSize.toNat :=
    Nat.le_mul_of_pos_right _ hpos
  have hiteration : (BitVec.ofNat 32 (slot / p.localSize.toNat)).toNat = slot / p.localSize.toNat :=
    Nat.mod_eq_of_lt (by omega)
  have hunit : (BitVec.ofNat 32 (slot % p.localSize.toNat)).toNat = slot % p.localSize.toNat :=
    Nat.mod_eq_of_lt (by omega)
  have hactive : ¬p.localSize ≤ BitVec.ofNat 32 (slot % p.localSize.toNat) := by
    rw [BitVec.le_def, hunit]
    omega
  have hproduct : (BitVec.ofNat 32 (slot / p.localSize.toNat) * p.localSize).toNat =
      slot / p.localSize.toNat * p.localSize.toNat := by
    rw [BitVec.toNat_mul, hiteration, Nat.mod_eq_of_lt hbase]
  rw [item, if_neg hactive, Word.mul_of_lt (by rw [hiteration]; exact hbase)]
  show (do let item ← Word.add _ _; _) = _
  by_cases hfits : slot < 2 ^ 32
  · have hsum : BitVec.ofNat 32 (slot / p.localSize.toNat) * p.localSize +
        BitVec.ofNat 32 (slot % p.localSize.toNat) = BitVec.ofNat 32 slot :=
      (slot_ofNat p _ _).trans (congrArg _ hsplit)
    have hinside : BitVec.ofNat 32 slot < p.range ↔ slot < p.range.toNat := by
      rw [BitVec.lt_def, BitVec.toNat_ofNat, Nat.mod_eq_of_lt hfits]
    rw [Word.add_of_lt (by rw [hproduct, hunit]; omega), if_pos hfits, hsum]
    show Except.ok _ = Except.ok _
    simp only [hinside]
  · rw [Word.add_of_le (by rw [hproduct, hunit]; omega), if_neg hfits]
    rfl

/-! ## The walk -/

/-- The walk over `n` items of the range yields their visits, whatever comes after them. -/
theorem visitsFrom_items {slot n : Nat} (hrange : slot + n ≤ p.range.toNat) (slots wanted : Nat) :
    p.visitsFrom (n + slots) slot (n + wanted) =
      (p.visitsFrom slots (slot + n) wanted).map ((List.range' slot n).map p.visitAt ++ ·) := by
  have hlt := p.range.isLt
  induction n generalizing slot with
  | zero =>
      rw [Nat.zero_add, Nat.zero_add, Nat.add_zero]
      cases p.visitsFrom slots slot wanted <;> rfl
  | succ n ih =>
      have hbase := Nat.div_mul_le_self slot p.localSize.toNat
      have hnext := ih (show slot + 1 + n ≤ p.range.toNat by omega)
      rw [Nat.add_right_comm n 1 slots, Nat.add_right_comm n 1 wanted, visitsFrom,
        item_slot hpos (by omega), if_pos (by omega), if_pos (by omega)]
      simp only [hnext, Nat.add_right_comm slot 1 n, List.range'_succ]
      cases p.visitsFrom slots (slot + n + 1) wanted <;> rfl

variable {iterations : Nat} (hbases : iterations * p.localSize.toNat < p.range.toNat + p.localSize.toNat)
include hbases

/-- The first slot of an iteration is an item of the range. -/
theorem base_lt {slot : Nat} (hslot : slot < iterations * p.localSize.toNat) :
    slot / p.localSize.toNat * p.localSize.toNat < p.range.toNat := by
  have hiteration : slot / p.localSize.toNat < iterations := (Nat.div_lt_iff_lt_mul hpos).2 hslot
  have hnext : (slot / p.localSize.toNat + 1) * p.localSize.toNat ≤
      iterations * p.localSize.toNat := Nat.mul_le_mul_right _ hiteration
  rw [Nat.succ_mul] at hnext
  omega

/-- The walk over the idle slots at the end yields nothing more, if all of them fit a word, and faults if the
last does not. -/
theorem visitsFrom_idle {slots slot : Nat} (hidle : p.range.toNat ≤ slot) (hfits : slot ≤ 2 ^ 32)
    (hend : slot + slots = iterations * p.localSize.toNat) (wanted : Nat) :
    p.visitsFrom slots slot (wanted + 1) =
      if iterations * p.localSize.toNat ≤ 2 ^ 32 then .ok [] else .error .addOverflow := by
  have hlt := p.range.isLt
  induction slots generalizing slot with
  | zero => rw [visitsFrom, if_pos (by omega)]
  | succ slots ih =>
      have hbase := base_lt hpos hbases (show slot < iterations * p.localSize.toNat by omega)
      rw [visitsFrom, item_slot hpos (by omega)]
      by_cases hslot : slot < 2 ^ 32
      · rw [if_pos hslot, if_neg (by omega)]
        exact ih (by omega) (by omega) (by omega)
      · rw [if_neg hslot, if_neg (by omega)]

end Walk

/-! ## Iterations -/

/-- The slots of an iteration, among those before a limit. -/
theorem filter_div_range {size : Nat} (hpos : 0 < size) (t limit : Nat) :
    (List.range limit).filter (· / size = t) =
      List.range' (t * size) (min size (limit - t * size)) := by
  induction limit with
  | zero => simp
  | succ limit ih =>
      rw [List.range_succ, List.filter_append, ih]
      by_cases hin : limit / size = t
      · obtain ⟨hlow, hhigh⟩ := (Nat.div_eq_iff hpos).1 hin
        have hcount : min size (limit + 1 - t * size) = limit - t * size + 1 := by omega
        have hcount' : min size (limit - t * size) = limit - t * size := by omega
        rw [hcount, hcount', List.range'_concat]
        simp [hin]
        omega
      · have hcount : min size (limit + 1 - t * size) = min size (limit - t * size) := by
          rw [Nat.div_eq_iff hpos] at hin
          omega
        rw [hcount]
        simp [hin]

theorem length_due (p : Partition) : p.due.length = p.range.toNat := by
  rw [due, List.length_map, List.length_range]

theorem getElem?_due {i : Nat} (hi : i < p.range.toNat) : p.due[i]? = some (p.visitAt i) := by
  rw [due, List.getElem?_map, List.getElem?_range hi]
  rfl

theorem take_due (p : Partition) {n : Nat} (hn : n ≤ p.range.toNat) :
    p.due.take n = (List.range n).map p.visitAt := by
  rw [due, ← List.map_take, List.take_range, Nat.min_eq_left hn]

/-- The units with an item in an iteration, in order: all of them if the iteration is full, the first ones in
the partial one, and none after that. -/
theorem units_of_iteration (hpos : 0 < p.localSize.toNat) (t : Nat) :
    (p.due.filter (·.iteration.toNat = t)).map (·.unit.toNat) =
      List.range (min p.localSize.toNat (p.range.toNat - t * p.localSize.toNat)) := by
  have hlt := p.range.isLt
  rw [due, List.filter_map, List.map_map]
  have hslots : (List.range p.range.toNat).filter
      ((fun visit => decide (visit.iteration.toNat = t)) ∘ p.visitAt) =
        (List.range p.range.toNat).filter (· / p.localSize.toNat = t) := by
    apply List.filter_congr
    intro slot hslot
    have hbound := List.mem_range.1 hslot
    rw [Function.comp_apply, (toNat_visitAt (p := p) (show slot < 2 ^ 32 by omega)).2.1]
  rw [hslots, filter_div_range hpos, List.range'_eq_map_range, List.map_map]
  conv_rhs => rw [← List.map_id (List.range _)]
  apply List.map_congr_left
  intro u hu
  have hunit := List.mem_range.1 hu
  rw [Function.comp_apply, Function.comp_apply,
    (toNat_visitAt (p := p) (show t * p.localSize.toNat + u < 2 ^ 32 by omega)).2.2,
    Nat.mul_comm t, Nat.mul_add_mod, Nat.mod_eq_of_lt (by omega), id]

/-- The items of an iteration are as many as it has units, unless it is the partial one or comes after it. -/
theorem min_rest_eq (size range t : Nat) (hpos : 0 < size) :
    min size (range - t * size) =
      if t < range / size then size else if t = range / size then range % size else 0 := by
  have hsplit := Nat.div_add_mod' range size
  have hless := Nat.mod_lt range hpos
  rcases Nat.lt_trichotomy t (range / size) with hfull | hpartial | hafter
  · have hnext : (t + 1) * size ≤ range / size * size := Nat.mul_le_mul_right _ hfull
    rw [Nat.succ_mul] at hnext
    rw [if_pos hfull]
    omega
  · rw [if_neg (by omega), if_pos hpartial, hpartial]
    omega
  · have hnext : (range / size + 1) * size ≤ t * size := Nat.mul_le_mul_right _ hafter
    rw [Nat.succ_mul] at hnext
    rw [if_neg (by omega), if_neg (by omega)]
    omega

/-! ## The whole enumeration -/

section Visits

variable (hpos : 0 < p.localSize.toNat)
include hpos

/-- What is due for an item is what the host's arithmetic assigns to it. -/
theorem visitAt_assigned {i : Nat} (hi : i < p.range.toNat) :
    p.owner (p.visitAt i).item = .ok (p.visitAt i).unit ∧
      p.item (p.visitAt i).iteration (p.visitAt i).unit = .ok (some (p.visitAt i).item) := by
  have hlt := p.range.isLt
  have hbase := Nat.div_mul_le_self i p.localSize.toNat
  obtain ⟨hitem, _, hunit⟩ := toNat_visitAt (p := p) (show i < 2 ^ 32 by omega)
  constructor
  · rw [owner, Word.rem, if_neg (Word.ne_zero_of_toNat_pos hpos)]
    apply congrArg Except.ok
    apply BitVec.eq_of_toNat_eq
    rw [BitVec.toNat_umod, hitem, hunit]
  · have hslot := item_slot hpos (show i / p.localSize.toNat * p.localSize.toNat < 2 ^ 32 by omega)
    rw [if_pos (by omega), if_pos hi] at hslot
    exact hslot

variable {iterations : Index} (hiterations : p.numIterations = .ok iterations)
  (hcount : iterations.toNat = (p.range.toNat + p.localSize.toNat - 1) / p.localSize.toNat)
include hiterations hcount

/-- Whoever asks for no more items than there are gets them. -/
theorem visits_of_le {wanted : Nat} (hwanted : wanted ≤ p.range.toNat) :
    p.visits wanted = .ok (p.due.take wanted) := by
  have hall : p.range.toNat ≤ iterations.toNat * p.localSize.toNat := hcount ▸ le_ceil_mul hpos
  obtain ⟨slots, hslots⟩ := Nat.exists_eq_add_of_le (hwanted.trans hall)
  have hitems := visitsFrom_items hpos (show 0 + wanted ≤ p.range.toNat by omega) slots 0
  rw [Nat.add_zero, visitsFrom_zero] at hitems
  rw [visits, hiterations]
  show p.visitsFrom _ 0 wanted = _
  rw [hslots, hitems, take_due p hwanted, List.range_eq_range']
  exact congrArg Except.ok (List.append_nil _)

/-- Whoever asks for more gets the end of the walk or the fault of a slot. -/
theorem visits_of_lt {wanted : Nat} (hwanted : p.range.toNat < wanted) :
    p.visits wanted = if iterations.toNat * p.localSize.toNat ≤ 2 ^ 32 then .ok p.due
      else .error .addOverflow := by
  have hlt := p.range.isLt
  have hall : p.range.toNat ≤ iterations.toNat * p.localSize.toNat := hcount ▸ le_ceil_mul hpos
  have hbases : iterations.toNat * p.localSize.toNat < p.range.toNat + p.localSize.toNat := by
    have hle := Nat.div_mul_le_self (p.range.toNat + p.localSize.toNat - 1) p.localSize.toNat
    rw [hcount]
    omega
  obtain ⟨more, rfl⟩ := Nat.exists_eq_add_of_lt hwanted
  obtain ⟨slots, hslots⟩ := Nat.exists_eq_add_of_le hall
  have hitems := visitsFrom_items hpos (show 0 + p.range.toNat ≤ p.range.toNat by omega)
    slots (more + 1)
  have hidle := visitsFrom_idle hpos hbases (Nat.le_refl _) hlt.le hslots.symm more
  rw [visits, hiterations]
  show p.visitsFrom _ 0 _ = _
  rw [hslots, Nat.add_assoc, hitems, Nat.zero_add, hidle, ← hslots, due, List.range_eq_range']
  split
  · exact congrArg Except.ok (List.append_nil _)
  · rfl

end Visits

/-- The lazy walk yields every item of the range, in order, each with the iteration and the unit that the
host's arithmetic assigns to it; full iterations use all units and the partial one its first units.  Whoever
asks for more gets the end of the walk, or the fault of a slot past the word space if there is one. -/
theorem visits_enumerate (p : Partition) (hpos : 0 < p.localSize.toNat) :
    ∃ iterations full tail : Index,
      p.numIterations = .ok iterations ∧ p.fullIterations = .ok full ∧ p.tailLength = .ok tail ∧
      p.due.length = p.range.toNat ∧
      (∀ i < p.range.toNat, ∃ visit, p.due[i]? = some visit ∧
        visit.item.toNat = i ∧ visit.iteration.toNat = i / p.localSize.toNat ∧
        visit.unit.toNat = i % p.localSize.toNat ∧ p.owner visit.item = .ok visit.unit ∧
        p.item visit.iteration visit.unit = .ok (some visit.item)) ∧
      (∀ t : Nat, (p.due.filter (·.iteration.toNat = t)).map (·.unit.toNat) =
        List.range (if t < full.toNat then p.localSize.toNat
          else if t = full.toNat then tail.toNat else 0)) ∧
      (∀ wanted ≤ p.range.toNat, p.visits wanted = .ok (p.due.take wanted)) ∧
      (∀ wanted, p.range.toNat < wanted → p.visits wanted =
        if iterations.toNat * p.localSize.toNat ≤ 2 ^ 32 then .ok p.due
        else .error .addOverflow) := by
  have hlt := p.range.isLt
  have hne := Word.ne_zero_of_toNat_pos hpos
  obtain ⟨iterations, hiterations, hcount⟩ := Word.ceilDiv_isOk p.range hpos
  refine ⟨iterations, p.range / p.localSize, p.range % p.localSize, hiterations, if_neg hne,
    if_neg hne, length_due p, ?items, ?units, ?walk, ?past⟩
  case items =>
    intro i hi
    obtain ⟨hitem, hiteration, hunit⟩ := toNat_visitAt (p := p) (show i < 2 ^ 32 by omega)
    exact ⟨p.visitAt i, getElem?_due hi, hitem, hiteration, hunit, visitAt_assigned hpos hi⟩
  case units =>
    intro t
    rw [units_of_iteration hpos, min_rest_eq _ _ _ hpos, BitVec.toNat_udiv, BitVec.toNat_umod]
  case walk => exact fun wanted hwanted => visits_of_le hpos hiterations hcount hwanted
  case past => exact fun wanted hwanted => visits_of_lt hpos hiterations hcount hwanted

/-- One item less than the word space, for units of which there are two less: the walk finds every item, and
whoever asks for one more meets the slot past the word space. -/
theorem visits_enumerate_word_limit :
    0 < (Partition.mk 4294967295 4294967294).localSize.toNat ∧
      (Partition.mk 4294967295 4294967294).visits 4294967295 =
        .ok (Partition.mk 4294967295 4294967294).due ∧
      (Partition.mk 4294967295 4294967294).visits 4294967296 = .error .addOverflow := by
  have hpos : 0 < (Partition.mk 4294967295 4294967294).localSize.toNat := by decide
  have hcount : (Partition.mk 4294967295 4294967294).numIterations = .ok 2 := by decide
  obtain ⟨iterations, _, _, hiterations, _, _, hlength, _, _, hwalk, hpast⟩ :=
    visits_enumerate (Partition.mk 4294967295 4294967294) hpos
  have htwo : iterations = 2 := Except.ok.inj (hiterations.symm.trans hcount)
  have hrange : (Partition.mk 4294967295 4294967294).range.toNat = 4294967295 := by decide
  refine ⟨hpos, ?_, ?_⟩
  · rw [hwalk 4294967295 (by rw [hrange]), List.take_of_length_le (by rw [hlength, hrange])]
  · rw [hpast 4294967296 (by rw [hrange]; decide), htwo, if_neg (by decide)]

end PrefixScan.Partition
