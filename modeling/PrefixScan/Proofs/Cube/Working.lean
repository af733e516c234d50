import PrefixScan.Proofs.Cube.Instr

/-!
# Working values

Each unit has one working value.  Most instructions change working values only: they load them,
combine them with another cell, or scan them across a plane.  This module says what the units hold
after such instructions, in iterations whose item numbers do not wrap.

## Main results

* `Instr.read_value_act` — an action on working values.
* `Instr.read_value_scanPlane` — a plane scan chains the values from the first unit of the plane on.
* `read_value_chunkCode` — the scanned chunks of an iteration.
-/

namespace PrefixScan.Cube

open Bracketing

/-! ## Items that do not wrap -/

namespace Frame

variable (frame : Frame)

/-- In iteration `t` no item number of the cube wraps. -/
def Exact (t : Nat) : Prop := t * frame.cubeDim + frame.cubeDim ≤ 2 ^ 32

theorem cubeDim_pos : 0 < frame.cubeDim := frame.settings.cubeDim_pos

variable {frame}

theorem Exact.lt {t : Nat} (ht : frame.Exact t) : t < 2 ^ 32 := by
  have hpos := frame.cubeDim_pos
  have hle : t ≤ t * frame.cubeDim := Nat.le_mul_of_pos_right t hpos
  unfold Exact at ht
  omega

theorem Exact.toNat_itemOf {t : Nat} (ht : frame.Exact t) {unit : Nat}
    (hunit : unit < frame.cubeDim) :
    (frame.itemOf (BitVec.ofNat 32 t) unit).toNat = t * frame.cubeDim + unit := by
  have hlt := ht.lt
  have hdim := frame.cubeDim_lt
  unfold Exact at ht
  show (BitVec.ofNat 32 t * frame.settings.cubeDim + BitVec.ofNat 32 unit).toNat = _
  rw [BitVec.toNat_add, BitVec.toNat_mul, BitVec.toNat_ofNat, BitVec.toNat_ofNat,
    Nat.mod_eq_of_lt hlt, Nat.mod_eq_of_lt (show unit < 2 ^ 32 by omega),
    Nat.mod_eq_of_lt (show t * frame.cubeDim < 2 ^ 32 by omega),
    Nat.mod_eq_of_lt (show t * frame.cubeDim + unit < 2 ^ 32 by omega)]

theorem Exact.mem_lanes {t : Nat} (ht : frame.Exact t) {bound : Index} {unit : Nat} :
    unit ∈ frame.lanes (BitVec.ofNat 32 t) bound ↔
      unit < frame.cubeDim ∧ t * frame.cubeDim + unit < bound.toNat := by
  rw [Frame.mem_lanes]
  constructor
  · rintro ⟨hunit, hlt⟩
    exact ⟨hunit, ht.toNat_itemOf hunit ▸ BitVec.lt_def.1 hlt⟩
  · rintro ⟨hunit, hlt⟩
    exact ⟨hunit, BitVec.lt_def.2 ((ht.toNat_itemOf hunit).symm ▸ hlt)⟩

end Frame

variable {α : Type} [Inhabited α] {op : Operator α} {frame : Frame} {m : Memory α}

/-! ## Actions on working values -/

/-- The action changes the working value of its unit and nothing else. -/
def Action.OnValue (action : Action) : Prop :=
  ∀ frame iteration item unit, ∀ move ∈ action.moves frame iteration item unit,
    move.target = .value unit

/-- The working value that an action on working values leaves a unit with. -/
def Action.result (op : Operator α) (frame : Frame) (m : Memory α) (iteration item : Index)
    (unit : Nat) (action : Action) : α :=
  match action.moves frame iteration item unit with
  | [] => m.read (.value unit)
  | move :: _ => move.operand.eval op m

theorem Instr.read_act_of_onValue {iteration bound : Index} {action : Action}
    (hon : action.OnValue) {cell : Cell} (hcell : ∀ unit, cell ≠ .value unit) :
    ((Instr.act iteration bound action).run op frame m).read cell = m.read cell := by
  apply Instr.read_act_of_ne
  intro unit _ move hmove
  rw [hon _ _ _ _ move hmove]
  exact (hcell unit).symm

theorem Instr.read_value_act {iteration bound : Index} {action : Action} (hon : action.OnValue)
    {unit : Nat} (hheld : m.Holds (.value unit)) :
    ((Instr.act iteration bound action).run op frame m).read (.value unit) =
      if unit ∈ frame.lanes iteration bound then
        action.result op frame m iteration (frame.itemOf iteration unit) unit
      else m.read (.value unit) := by
  -- other units write other working values
  have hother : ∀ other ∈ frame.lanes iteration bound, other ≠ unit →
      ∀ move ∈ action.moves frame iteration (frame.itemOf iteration other) other,
        move.target ≠ .value unit := by
    intro other _ hne move hmove
    rw [hon _ _ _ _ move hmove]
    simpa using hne
  split
  · rename_i hlane
    unfold Action.result
    split
    · rename_i hnone
      apply Instr.read_act_of_ne
      intro other hother' move hmove
      by_cases hsame : other = unit
      · subst other
        rw [hnone] at hmove
        cases hmove
      · exact hother other hother' hsame move hmove
    · rename_i move rest hmoves
      have hmove : move ∈ action.moves frame iteration (frame.itemOf iteration unit) unit := by
        rw [hmoves]
        exact List.mem_cons_self
      have htarget := hon _ _ _ _ move hmove
      rw [← htarget] at hheld ⊢
      exact Instr.read_act hlane hmove hheld
  · rename_i hlane
    apply Instr.read_act_of_ne
    intro other hother' move hmove
    have hne : other ≠ unit := fun e => hlane (e ▸ hother')
    exact hother other hother' hne move hmove

/-! ## Plane scans -/

/-- The units below a limit, in a row of units. -/
theorem filter_range' (start count limit : Nat) :
    (List.range' start count).filter (· < limit) =
      List.range' start (min count (limit - start)) := by
  induction count with
  | zero => simp
  | succ count ih =>
      rw [List.range'_concat, List.filter_append, ih]
      by_cases h : start + 1 * count < limit
      · have hmin : min count (limit - start) = count := by omega
        have hmin' : min (count + 1) (limit - start) = count + 1 := by omega
        rw [hmin, hmin', List.range'_concat]
        simp [show start + count < limit by omega]
      · have hmin : min (count + 1) (limit - start) = min count (limit - start) := by omega
        rw [hmin]
        simp [show limit ≤ start + count by omega]

/-- The neighbours in a row of units. -/
theorem zip_tail_range' (start count : Nat) :
    (List.range' start (count + 1)).zip (List.range' start (count + 1)).tail =
      (List.range' start count).map fun unit => (unit, unit + 1) := by
  apply List.ext_getElem
  · simp
  · intro i _ _
    simp
    omega

/-- The moves of a plane scan over `count + 1` units in a row. -/
def scanMoves (start count : Nat) : List Move :=
  (List.range' start count).map fun unit =>
    ⟨.value (unit + 1), .combine (.value unit) (.value (unit + 1))⟩

theorem scanMoves_succ (start count : Nat) :
    scanMoves start (count + 1) = scanMoves start count ++
      [⟨.value (start + count + 1),
        .combine (.value (start + count)) (.value (start + count + 1))⟩] := by
  simp [scanMoves, List.range'_concat]

theorem read_scanMoves_of_ne {start count : Nat} {cell : Cell}
    (h : ∀ unit, start < unit → unit ≤ start + count → cell ≠ .value unit) :
    (Move.applyAll op m (scanMoves start count)).read cell = m.read cell := by
  apply Move.read_applyAll_of_ne
  intro move hmove
  obtain ⟨unit, hunit, rfl⟩ := List.mem_map.1 hmove
  obtain ⟨k, hk, rfl⟩ := List.mem_range'.1 hunit
  exact (h _ (by omega) (by omega)).symm

/-- Each unit of the row holds the chain of the values from the first unit to itself. -/
theorem read_scanMoves {start count : Nat} (hheld : ∀ j ≤ count, m.Holds (.value (start + j)))
    {j : Nat} (hj : j ≤ count) :
    (Move.applyAll op m (scanMoves start count)).read (.value (start + j)) =
      (chain j).eval op.combine fun i => m.read (.value (start + i)) := by
  induction count generalizing j with
  | zero =>
      obtain rfl : j = 0 := by omega
      rfl
  | succ count ih =>
      have hprev := fun {j} => ih (j := j) fun j hj => hheld j (by omega)
      rw [scanMoves_succ, Move.applyAll_append, Move.applyAll_singleton]
      by_cases hlast : j = count + 1
      · subst hlast
        have hlastHeld : (Move.applyAll op m (scanMoves start count)).Holds
            (.value (start + count + 1)) :=
          (Move.holds_applyAll _ _ _).2 (hheld (count + 1) (Nat.le_refl _))
        have hown : (Move.applyAll op m (scanMoves start count)).read
            (.value (start + count + 1)) = m.read (.value (start + count + 1)) :=
          read_scanMoves_of_ne (by simp; omega)
        rw [← Nat.add_assoc, Memory.read_write_self hlastHeld]
        simp only [Operand.eval, chain, eval]
        rw [hprev (Nat.le_refl _), hown, Nat.add_assoc]
      · rw [Memory.read_write_of_ne (by simp; omega)]
        exact hprev (by omega)

theorem Frame.row_le (plane : Nat) (hplane : plane < frame.numPlanes) :
    plane * frame.planeDim + frame.planeDim ≤ frame.cubeDim := by
  rw [← frame.numPlanes_mul, ← Nat.succ_mul]
  exact Nat.mul_le_mul_right _ hplane

theorem Instr.moves_scanPlane {t : Nat} (ht : frame.Exact t) {bound : Index} {plane : Nat}
    (hplane : plane < frame.numPlanes) :
    (Instr.scanPlane (BitVec.ofNat 32 t) bound).moves frame plane =
      scanMoves (plane * frame.planeDim)
        (min frame.planeDim
          (bound.toNat - t * frame.cubeDim - plane * frame.planeDim) - 1) := by
  have hactive : frame.active plane (BitVec.ofNat 32 t) bound =
      List.range' (plane * frame.planeDim)
        (min frame.planeDim (bound.toNat - t * frame.cubeDim - plane * frame.planeDim)) := by
    rw [← filter_range']
    apply List.filter_congr
    intro unit hunit
    have hlane : unit < frame.cubeDim := by
      have hrow := frame.row_le plane hplane
      have hlt : unit < plane * frame.planeDim + frame.planeDim := (List.mem_range'_1.1 hunit).2
      omega
    have hitem := ht.toNat_itemOf hlane
    show decide (frame.itemOf (BitVec.ofNat 32 t) unit < bound) = _
    rw [decide_eq_decide, BitVec.lt_def, hitem]
    omega
  simp only [Instr.moves, hactive]
  cases hcount : min frame.planeDim
      (bound.toNat - t * frame.cubeDim - plane * frame.planeDim) with
  | zero => rfl
  | succ count =>
      rw [zip_tail_range', List.map_map]
      rfl

/-- What the first `planes` planes leave in the working values when they scan. -/
theorem read_value_scanPlanes {t : Nat} (ht : frame.Exact t) {bound : Index}
    (hheld : ∀ unit < frame.cubeDim, m.Holds (.value unit)) {planes : Nat}
    (hplanes : planes ≤ frame.numPlanes) (plane : Nat) {j : Nat} (hj : j < frame.planeDim) :
    (Move.applyAll op m ((List.range planes).flatMap fun plane =>
        (Instr.scanPlane (BitVec.ofNat 32 t) bound).moves frame plane)).read
        (.value (plane * frame.planeDim + j)) =
      if plane < planes ∧ t * frame.cubeDim + (plane * frame.planeDim + j) < bound.toNat then
        (chain j).eval op.combine fun i => m.read (.value (plane * frame.planeDim + i))
      else m.read (.value (plane * frame.planeDim + j)) := by
  induction planes generalizing plane j with
  | zero => simp [Move.applyAll]
  | succ last ih =>
      have hrow := frame.row_le last (by omega)
      rw [List.range_succ, List.flatMap_append, List.flatMap_singleton, Move.applyAll_append,
        Instr.moves_scanPlane ht (by omega)]
      by_cases hlast : plane = last
      · subst hlast
        by_cases hbound : t * frame.cubeDim + (plane * frame.planeDim + j) < bound.toNat
        · rw [if_pos ⟨Nat.lt_succ_self _, hbound⟩, read_scanMoves
            (fun i hi => (Move.holds_applyAll _ _ _).2 (hheld _ (by omega))) (by omega)]
          apply eval_congr
          intro i hi
          rw [items_chain, List.mem_range] at hi
          rw [ih (by omega) plane (by omega), if_neg (by omega)]
        · rw [if_neg (by omega), read_scanMoves_of_ne (by simp; omega), ih (by omega) plane hj,
            if_neg (by omega)]
      · have hapart : ∀ unit, last * frame.planeDim ≤ unit →
            unit < last * frame.planeDim + frame.planeDim →
            plane * frame.planeDim + j ≠ unit := by
          rintro _ hlow hhigh rfl
          apply hlast
          have hquot : (plane * frame.planeDim + j) / frame.planeDim = plane := by
            rw [Nat.mul_comm, Nat.mul_add_div frame.planeDim_pos, Nat.div_eq_of_lt hj,
              Nat.add_zero]
          rw [← hquot]
          exact Nat.div_eq_of_lt_le hlow (by rw [Nat.succ_mul]; exact hhigh)
        rw [read_scanMoves_of_ne, ih (by omega) plane hj]
        · have hiff : plane < last ↔ plane < last + 1 := by omega
          simp only [hiff]
        · intro unit hlow hhigh
          have := hapart unit (by omega) (by omega)
          simpa using this

/-- A plane scan leaves each unit whose item is below the bound with the chain of the working values
of its plane, from the first unit to itself. -/
theorem Instr.read_value_scanPlane {t : Nat} (ht : frame.Exact t) {bound : Index}
    (hheld : ∀ unit < frame.cubeDim, m.Holds (.value unit)) {unit : Nat}
    (hunit : unit < frame.cubeDim) :
    ((Instr.scanPlane (BitVec.ofNat 32 t) bound).run op frame m).read (.value unit) =
      if t * frame.cubeDim + unit < bound.toNat then
        (chain (unit % frame.planeDim)).eval op.combine fun j =>
          m.read (.value (unit / frame.planeDim * frame.planeDim + j))
      else m.read (.value unit) := by
  have hplane : unit / frame.planeDim < frame.numPlanes := by
    apply Nat.div_lt_of_lt_mul
    rw [Nat.mul_comm, frame.numPlanes_mul]
    exact hunit
  have hlane := Nat.mod_lt unit frame.planeDim_pos
  rw [Instr.run, applyAll_flatMap]
  nth_rewrite 1 [← Nat.div_add_mod' unit frame.planeDim]
  rw [read_value_scanPlanes ht hheld (Nat.le_refl _) (unit / frame.planeDim) hlane]
  simp only [hplane, true_and, Nat.div_add_mod']

/-- A plane scan changes working values only. -/
theorem Instr.read_scanPlane_of_ne {iteration bound : Index} {cell : Cell}
    (hcell : ∀ unit, cell ≠ .value unit) :
    ((Instr.scanPlane iteration bound).run op frame m).read cell = m.read cell := by
  rw [Instr.run, applyAll_flatMap]
  apply Move.read_applyAll_of_ne
  intro move hmove
  obtain ⟨plane, _, hmem⟩ := List.mem_flatMap.1 hmove
  obtain ⟨pair, _, rfl⟩ := List.mem_map.1 hmem
  exact (hcell pair.2).symm

/-! ## Scanned chunks -/

namespace Frame

variable (frame)

/-- The cell of an item of a region, when no position wraps. -/
def place (i : Nat) : Region → Cell
  | .source => .source (frame.offset.toNat + i)
  | .shared level => .shared level i

/-- No position of the first `range` items of a region wraps. -/
def Reaches (range : Nat) : Region → Prop
  | .source => frame.offset.toNat + range ≤ 2 ^ 32
  | .shared _ => True

variable {frame}

theorem Reaches.cell_eq {region : Region} {range : Nat} (hreach : frame.Reaches range region)
    {item : Index} (hitem : item.toNat < range) :
    frame.cell item region = frame.place item.toNat region := by
  cases region with
  | shared level => rfl
  | source =>
      have hsum : frame.offset.toNat + item.toNat < 2 ^ 32 := by
        unfold Reaches at hreach
        omega
      rw [cell, place, BitVec.toNat_add, Nat.mod_eq_of_lt hsum]

theorem place_ne_value (i : Nat) (region : Region) (unit : Nat) :
    frame.place i region ≠ .value unit := by
  cases region <;> simp [place]

/-- The items of a region, padded beyond the range. -/
def items (op : Operator α) (frame : Frame) (m : Memory α) (region : Region) (range i : Nat) : α :=
  if i < range then m.read (frame.place i region) else op.identity

end Frame

/-- The instructions of an iteration that load items, pad them to whole planes and scan them. -/
def chunkCode (region : Region) (t range padded : Index) : List Instr :=
  [.act t padded .pad, .act t range (.load region), .scanPlane t padded]

theorem Action.onValue_pad : Action.pad.OnValue := by
  intro frame iteration item unit move hmove
  simp_all [moves]

theorem Action.onValue_load (region : Region) : (Action.load region).OnValue := by
  intro frame iteration item unit move hmove
  simp_all [moves]

theorem read_chunkCode_of_ne {region : Region} {t range padded : Index} {cell : Cell}
    (hcell : ∀ unit, cell ≠ .value unit) :
    (runCode op frame m (chunkCode region t range padded)).read cell = m.read cell := by
  show (Instr.run op frame (Instr.run op frame (Instr.run op frame m _) _) _).read cell = _
  rw [Instr.read_scanPlane_of_ne hcell, Instr.read_act_of_onValue (Action.onValue_load _) hcell,
    Instr.read_act_of_onValue Action.onValue_pad hcell]

/-- Each unit whose item is within the padded range holds the chain of the items of its chunk, from
the first item of the chunk to its own. -/
theorem read_value_chunkCode {region : Region} {t : Nat} (ht : frame.Exact t) {range padded : Index}
    (hreach : frame.Reaches range.toNat region)
    (hheld : ∀ unit < frame.cubeDim, m.Holds (.value unit)) {unit : Nat}
    (hunit : unit < frame.cubeDim) (hitem : t * frame.cubeDim + unit < padded.toNat) :
    (runCode op frame m (chunkCode region (BitVec.ofNat 32 t) range padded)).read (.value unit) =
      (chain ((t * frame.cubeDim + unit) % frame.planeDim)).eval op.combine fun j =>
        frame.items op m region range.toNat
          ((t * frame.cubeDim + unit) / frame.planeDim * frame.planeDim + j) := by
  let m₁ := Instr.run op frame m (.act (BitVec.ofNat 32 t) padded .pad)
  let m₂ := Instr.run op frame m₁ (.act (BitVec.ofNat 32 t) range (.load region))
  have hheld₁ : ∀ unit < frame.cubeDim, m₁.Holds (.value unit) := fun unit hunit =>
    (Instr.holds_run _ m _).2 (hheld unit hunit)
  have hheld₂ : ∀ unit < frame.cubeDim, m₂.Holds (.value unit) := fun unit hunit =>
    (Instr.holds_run _ m₁ _).2 (hheld₁ unit hunit)
  have hloaded : ∀ unit < frame.cubeDim, t * frame.cubeDim + unit < padded.toNat →
      m₂.read (.value unit) =
        frame.items op m region range.toNat (t * frame.cubeDim + unit) := by
    intro unit hunit hitem
    have hword := ht.toNat_itemOf hunit
    rw [Instr.read_value_act (Action.onValue_load region) (hheld₁ unit hunit), Frame.items]
    by_cases hin : t * frame.cubeDim + unit < range.toNat
    · rw [if_pos (ht.mem_lanes.2 ⟨hunit, hin⟩), if_pos hin]
      show m₁.read (frame.cell (frame.itemOf (BitVec.ofNat 32 t) unit) region) = _
      rw [hreach.cell_eq (by rw [hword]; exact hin), hword]
      exact Instr.read_act_of_onValue Action.onValue_pad (frame.place_ne_value _ region)
    · rw [if_neg fun h => hin (ht.mem_lanes.1 h).2, if_neg hin,
        Instr.read_value_act Action.onValue_pad (hheld unit hunit),
        if_pos (ht.mem_lanes.2 ⟨hunit, hitem⟩)]
      rfl
  -- chunks do not straddle iterations
  obtain ⟨planes, hplanes⟩ := frame.settings.planeDim_dvd_cubeDim
  have hstart : t * frame.cubeDim = frame.planeDim * (planes * t) := by
    show t * frame.settings.cubeDim.toNat = _
    rw [hplanes, Nat.mul_comm, Nat.mul_assoc]
  have hmod : (t * frame.cubeDim + unit) % frame.planeDim = unit % frame.planeDim := by
    rw [hstart, Nat.mul_add_mod]
  have hdiv : (t * frame.cubeDim + unit) / frame.planeDim * frame.planeDim =
      t * frame.cubeDim + unit / frame.planeDim * frame.planeDim := by
    rw [hstart, Nat.mul_add_div frame.planeDim_pos, Nat.add_mul, Nat.mul_comm (planes * t)]
  have hsplit := Nat.div_add_mod' unit frame.planeDim
  show (Instr.run op frame m₂ (.scanPlane (BitVec.ofNat 32 t) padded)).read _ = _
  rw [Instr.read_value_scanPlane ht hheld₂ hunit, if_pos hitem, hmod, hdiv]
  apply eval_congr
  intro j hj
  rw [items_chain, List.mem_range] at hj
  rw [hloaded _ (by omega) (by omega), Nat.add_assoc]

end PrefixScan.Cube
