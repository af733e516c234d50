import PrefixScan.Proofs.Cube.Kernel

/-!
# Footprints between barriers

Between two barriers every cell that some unit writes belongs to that unit.  Working values, carries and
kept values belong to their unit throughout.  Who the other cells belong to changes with the phase: while
items are stored, an item belongs to the unit that it is assigned to; while chunk totals are posted, a
total belongs to the unit of the last item of the chunk.  No unit reads a cell of a unit of another plane,
so the chunk totals must change hands at barriers, once when they are posted and again when they are
scanned.

## Main definitions

* `Instr.unitMoves` — the moves of a plane, unit by unit.
* `Footprints` — who writes and who reads between two barriers.
* `Instr.Owned`, `Phased` — the owners of the cells in a phase.

## Main results

* `ScanCode.phased` — the owners in all phases of a cube scan, whatever follows the last phase.
* `Program.reduce_phased`, `Program.expand_phased` — the owners in the kernels of the two sweeps.
* `Phased.footprints` — code with owners has footprints that are apart.
-/

namespace PrefixScan.Cube

/-! ## Moves of units -/

/-- The moves that a unit makes for an instruction. -/
def Instr.unitMoves (frame : Frame) (unit : Nat) : Instr → List Move
  | .act iteration bound action =>
    if unit ∈ frame.lanes iteration bound then
      action.moves frame iteration (frame.itemOf iteration unit) unit
    else []
  | .scanPlane iteration bound =>
    let active := frame.active (unit / frame.planeDim) iteration bound
    (active.zip active.tail).filterMap fun (previous, next) =>
      if next = unit then some ⟨.value unit, .combine (.value previous) (.value unit)⟩ else none
  | .fetchCarry => [⟨.carry unit, .copy (.total frame.position.toNat)⟩]
  | .fetchItem owner item =>
    if unit = owner.toNat then [⟨.value unit, .copy (frame.cell item .source)⟩] else []
  | .publish owner =>
    if unit = owner.toNat then [⟨.total frame.position.toNat, .copy (.value unit)⟩] else []
  | .barrier => []

namespace Frame

variable {frame : Frame}

theorem mem_units {plane unit : Nat} :
    unit ∈ frame.units plane ↔ unit / frame.planeDim = plane := by
  have hpos := frame.planeDim_pos
  show unit ∈ List.range' (plane * frame.planeDim) frame.planeDim ↔ _
  rw [List.mem_range'_1, Nat.div_eq_iff hpos]
  omega

theorem lt_cubeDim_of_mem_units {plane unit : Nat} (hplane : plane < frame.numPlanes)
    (hunit : unit ∈ frame.units plane) : unit < frame.cubeDim := by
  have hmem : unit ∈ (List.range frame.numPlanes).flatMap frame.units :=
    List.mem_flatMap.2 ⟨plane, List.mem_range.2 hplane, hunit⟩
  rw [flatMap_units] at hmem
  exact List.mem_range.1 hmem

theorem mem_active {plane unit : Nat} (hplane : plane < frame.numPlanes) {iteration bound : Index} :
    unit ∈ frame.active plane iteration bound ↔
      unit ∈ frame.units plane ∧ unit ∈ frame.lanes iteration bound := by
  rw [active, List.mem_filter, mem_lanes]
  constructor
  · rintro ⟨hunit, hcovers⟩
    exact ⟨hunit, lt_cubeDim_of_mem_units hplane hunit, of_decide_eq_true hcovers⟩
  · rintro ⟨hunit, _, hcovers⟩
    exact ⟨hunit, decide_eq_true hcovers⟩

end Frame

section UnitMoves

variable {frame : Frame} {unit : Nat} {move : Move}

theorem Instr.mem_unitMoves_act {iteration bound : Index} {action : Action} :
    move ∈ (Instr.act iteration bound action).unitMoves frame unit ↔
      unit ∈ frame.lanes iteration bound ∧
        move ∈ action.moves frame iteration (frame.itemOf iteration unit) unit := by
  simp [unitMoves]

/-- A unit scans with the unit before it in its plane. -/
theorem Instr.of_mem_unitMoves_scanPlane {iteration bound : Index}
    (h : move ∈ (Instr.scanPlane iteration bound).unitMoves frame unit) :
    ∃ previous, previous / frame.planeDim = unit / frame.planeDim ∧
      move = ⟨.value unit, .combine (.value previous) (.value unit)⟩ := by
  simp only [unitMoves, List.mem_filterMap] at h
  obtain ⟨⟨previous, next⟩, hpair, hmove⟩ := h
  have hprevious := (List.mem_filter.1 (List.of_mem_zip hpair).1).1
  split at hmove
  · exact ⟨previous, Frame.mem_units.1 hprevious, (Option.some.inj hmove).symm⟩
  · cases hmove

theorem Instr.mem_unitMoves_fetchItem {owner item : Index} :
    move ∈ (Instr.fetchItem owner item).unitMoves frame unit ↔
      unit = owner.toNat ∧ move = ⟨.value unit, .copy (frame.cell item .source)⟩ := by
  simp [unitMoves]

theorem Instr.mem_unitMoves_publish {owner : Index} :
    move ∈ (Instr.publish owner).unitMoves frame unit ↔
      unit = owner.toNat ∧ move = ⟨.total frame.position.toNat, .copy (.value unit)⟩ := by
  simp [unitMoves]

end UnitMoves

/-- The moves of a plane are the moves of its units. -/
theorem Instr.mem_moves_iff {frame : Frame} {plane : Nat} (hplane : plane < frame.numPlanes)
    {instr : Instr} {move : Move} :
    move ∈ instr.moves frame plane ↔
      ∃ unit ∈ frame.units plane, move ∈ instr.unitMoves frame unit := by
  cases instr with
  | act iteration bound action =>
      simp only [moves, mem_unitMoves_act, List.mem_flatMap, Frame.mem_active hplane]
      exact exists_congr fun unit => and_assoc
  | scanPlane iteration bound =>
      simp only [moves, unitMoves, List.mem_map, List.mem_filterMap]
      constructor
      · rintro ⟨⟨previous, unit⟩, hpair, rfl⟩
        have hactive := List.mem_of_mem_tail (List.of_mem_zip hpair).2
        have hunit := ((Frame.mem_active hplane).1 hactive).1
        refine ⟨unit, hunit, (previous, unit), ?_, by simp⟩
        rwa [Frame.mem_units.1 hunit]
      · rintro ⟨unit, hunit, ⟨previous, next⟩, hpair, hmove⟩
        rw [Frame.mem_units.1 hunit] at hpair
        split at hmove
        · rename_i hnext
          subst hnext
          exact ⟨(previous, next), hpair, Option.some.inj hmove⟩
        · cases hmove
  | fetchCarry =>
      simp only [moves, unitMoves, List.mem_map, List.mem_singleton]
      exact exists_congr fun unit => and_congr_right fun _ => eq_comm
  | fetchItem owner item => simp [moves, mem_unitMoves_fetchItem]
  | publish owner => simp [moves, mem_unitMoves_publish]
  | barrier => simp [moves, unitMoves]

/-- Between two barriers no cell is written by two units, and none is read by a unit and written by a unit
of another plane. -/
structure Footprints (frame : Frame) (code : List Instr) : Prop where
  writes : ∀ phase, phase <:+: code → Instr.barrier ∉ phase →
    ∀ instr ∈ phase, ∀ instr' ∈ phase, ∀ unit < frame.cubeDim, ∀ unit' < frame.cubeDim,
      ∀ a ∈ instr.unitMoves frame unit, ∀ b ∈ instr'.unitMoves frame unit',
        a.target = b.target → unit = unit'
  reads : ∀ phase, phase <:+: code → Instr.barrier ∉ phase →
    ∀ instr ∈ phase, ∀ instr' ∈ phase, ∀ unit < frame.cubeDim, ∀ unit' < frame.cubeDim,
      ∀ a ∈ instr.unitMoves frame unit, ∀ b ∈ instr'.unitMoves frame unit',
        a.target ∈ b.reads → unit / frame.planeDim = unit' / frame.planeDim

/-! ## Owners -/

/-- The owner of a cell, if it has one: private cells belong to their unit, and who the other cells belong
to depends on the phase. -/
def Cell.owner (common : Cell → Option Nat) : Cell → Option Nat
  | .value unit | .carry unit | .kept _ unit _ => some unit
  | cell => common cell

/-- Units write what they own, and read nothing that a unit of another plane owns. -/
structure Instr.Owned (frame : Frame) (common : Cell → Option Nat) (instr : Instr) : Prop where
  writes : ∀ unit < frame.cubeDim, ∀ move ∈ instr.unitMoves frame unit,
    move.target.owner common = some unit
  reads : ∀ unit < frame.cubeDim, ∀ move ∈ instr.unitMoves frame unit, ∀ cell ∈ move.reads,
    ∀ other, cell.owner common = some other → other / frame.planeDim = unit / frame.planeDim

/-- In every phase the cells have owners. -/
def Phased (frame : Frame) (code : List Instr) : Prop :=
  ∀ phase, phase <:+: code → Instr.barrier ∉ phase →
    ∃ common, ∀ instr ∈ phase, instr.Owned frame common

section Phased

variable {frame : Frame} {code before after : List Instr}

theorem phased_of_owned {common : Cell → Option Nat} (h : ∀ instr ∈ code, instr.Owned frame common) :
    Phased frame code :=
  fun _ hphase _ => ⟨common, fun instr hinstr => h instr (hphase.subset hinstr)⟩

theorem phased_append {common : Cell → Option Nat}
    (hbefore : ∀ instr ∈ before, instr.Owned frame common)
    (hafter : ∀ instr ∈ after, instr.Owned frame common) : Phased frame (before ++ after) :=
  phased_of_owned (List.forall_mem_append.2 ⟨hbefore, hafter⟩)

/-- A phase lies on one side of a barrier. -/
theorem infix_of_barrier {phase : List Instr} (h : phase <:+: before ++ .barrier :: after)
    (hfree : Instr.barrier ∉ phase) : phase <:+: before ∨ phase <:+: after := by
  rcases List.infix_append_iff.1 h with hbefore | hafter | ⟨left, right, rfl, hleft, hright⟩
  · exact .inl hbefore
  · rcases List.infix_cons_iff.1 hafter with hprefix | hinfix
    · rcases phase with _ | ⟨instr, phase⟩
      · exact .inl (List.nil_infix)
      · obtain ⟨rfl, _⟩ := List.cons_prefix_cons.1 hprefix
        exact absurd List.mem_cons_self hfree
    · exact .inr hinfix
  · rcases right with _ | ⟨instr, right⟩
    · rw [List.append_nil]
      exact .inl hleft.isInfix
    · obtain ⟨rfl, _⟩ := List.cons_prefix_cons.1 hright
      exact absurd (List.mem_append_right left List.mem_cons_self) hfree

theorem Phased.barrier (hbefore : Phased frame before) (hafter : Phased frame after) :
    Phased frame (before ++ .barrier :: after) := by
  intro phase hphase hfree
  rcases infix_of_barrier hphase hfree with hphase | hphase
  · exact hbefore phase hphase hfree
  · exact hafter phase hphase hfree

theorem Phased.footprints (h : Phased frame code) : Footprints frame code := by
  refine ⟨?_, ?_⟩
  · intro phase hphase hfree instr hinstr instr' hinstr' unit hunit unit' hunit' a ha b hb hsame
    obtain ⟨common, howned⟩ := h phase hphase hfree
    have howner := (howned instr hinstr).writes unit hunit a ha
    have howner' := (howned instr' hinstr').writes unit' hunit' b hb
    rw [hsame, howner'] at howner
    exact (Option.some.inj howner).symm
  · intro phase hphase hfree instr hinstr instr' hinstr' unit hunit unit' hunit' a ha b hb hread
    obtain ⟨common, howned⟩ := h phase hphase hfree
    exact (howned instr' hinstr').reads unit' hunit' b hb _ hread unit
      ((howned instr hinstr).writes unit hunit a ha)

/-- Moves of different planes in a phase do not see each other. -/
theorem Footprints.apart (h : Footprints frame code) {phase : List Instr} (hphase : phase <:+: code)
    (hfree : Instr.barrier ∉ phase) {instr instr' : Instr} (hinstr : instr ∈ phase)
    (hinstr' : instr' ∈ phase) {plane plane' : Nat} (hplane : plane < frame.numPlanes)
    (hplane' : plane' < frame.numPlanes) (hne : plane ≠ plane') {a b : Move}
    (ha : a ∈ instr.moves frame plane) (hb : b ∈ instr'.moves frame plane') : Move.Apart a b := by
  obtain ⟨unit, hunit, ha⟩ := (Instr.mem_moves_iff hplane).1 ha
  obtain ⟨unit', hunit', hb⟩ := (Instr.mem_moves_iff hplane').1 hb
  have hlt := Frame.lt_cubeDim_of_mem_units hplane hunit
  have hlt' := Frame.lt_cubeDim_of_mem_units hplane' hunit'
  rw [Frame.mem_units] at hunit hunit'
  constructor
  · intro hsame
    have hunits := h.writes phase hphase hfree instr hinstr instr' hinstr' unit hlt unit' hlt' a ha b hb
      hsame
    exact hne (by rw [← hunit, ← hunit', hunits])
  · intro hread
    have hplanes := h.reads phase hphase hfree instr hinstr instr' hinstr' unit hlt unit' hlt' a ha b hb
      hread
    exact hne (by rw [← hunit, ← hunit', hplanes])

end Phased

/-! ## Owners of the cells of an instruction -/

section Instr

variable {frame : Frame} {common : Cell → Option Nat}

/-- An action is owned if units write their own cells and read nothing of another unit. -/
theorem Instr.owned_act {iteration bound : Index} {action : Action}
    (h : ∀ unit ∈ frame.lanes iteration bound,
      ∀ move ∈ action.moves frame iteration (frame.itemOf iteration unit) unit,
        move.target.owner common = some unit ∧
          ∀ cell ∈ move.reads, ∀ other, cell.owner common = some other → other = unit) :
    (Instr.act iteration bound action).Owned frame common := by
  refine ⟨?_, ?_⟩
  · intro unit _ move hmove
    obtain ⟨hunit, hmove⟩ := mem_unitMoves_act.1 hmove
    exact (h unit hunit move hmove).1
  · intro unit _ move hmove cell hcell other howner
    obtain ⟨hunit, hmove⟩ := mem_unitMoves_act.1 hmove
    rw [(h unit hunit move hmove).2 cell hcell other howner]

/-- The action uses private cells of the unit only. -/
def Action.Private : Action → Prop
  | .pad | .keep _ | .recall _ | .prependCarry => True
  | _ => False

theorem Instr.owned_private {iteration bound : Index} {action : Action} (h : action.Private) :
    (Instr.act iteration bound action).Owned frame common := by
  apply owned_act
  cases action with
  | pad | keep | «recall» | prependCarry =>
      simp [Action.moves, Move.reads, Operand.reads, Cell.owner]
  | load | post | prepend | store => cases h

theorem Instr.owned_load {iteration bound : Index} {region : Region}
    (h : ∀ unit ∈ frame.lanes iteration bound, ∀ other,
      (frame.cell (frame.itemOf iteration unit) region).owner common = some other → other = unit) :
    (Instr.act iteration bound (.load region)).Owned frame common :=
  owned_act <| by simpa [Action.moves, Move.reads, Operand.reads, Cell.owner] using h

theorem Instr.owned_store {iteration bound : Index} {region : Region}
    (h : ∀ unit ∈ frame.lanes iteration bound,
      (frame.cell (frame.itemOf iteration unit) region).owner common = some unit) :
    (Instr.act iteration bound (.store region)).Owned frame common :=
  owned_act <| by simpa [Action.moves, Move.reads, Operand.reads, Cell.owner] using h

/-- A plane scan stays within the plane. -/
theorem Instr.owned_scanPlane (iteration bound : Index) :
    (Instr.scanPlane iteration bound).Owned frame common := by
  refine ⟨?_, ?_⟩
  · intro unit _ move hmove
    obtain ⟨previous, _, rfl⟩ := of_mem_unitMoves_scanPlane hmove
    rfl
  · intro unit _ move hmove cell hcell other howner
    obtain ⟨previous, hplane, rfl⟩ := of_mem_unitMoves_scanPlane hmove
    simp only [Move.reads, Operand.reads, List.mem_cons, List.not_mem_nil, or_false] at hcell
    rcases hcell with rfl | rfl
    · rw [← Option.some.inj howner]
      exact hplane
    · rw [← Option.some.inj howner]

theorem Instr.owned_fetchItem {owner item : Index}
    (h : ∀ other, (frame.cell item .source).owner common = some other → other = owner.toNat) :
    (Instr.fetchItem owner item).Owned frame common := by
  refine ⟨?_, ?_⟩
  · intro unit _ move hmove
    obtain ⟨_, rfl⟩ := mem_unitMoves_fetchItem.1 hmove
    rfl
  · intro unit _ move hmove cell hcell other howner
    obtain ⟨hunit, rfl⟩ := mem_unitMoves_fetchItem.1 hmove
    obtain rfl : cell = frame.cell item .source := List.mem_singleton.1 hcell
    rw [h other howner, hunit]

theorem Instr.owned_publish {owner : Index}
    (h : common (.total frame.position.toNat) = some owner.toNat) :
    (Instr.publish owner).Owned frame common := by
  refine ⟨?_, ?_⟩
  · intro unit _ move hmove
    obtain ⟨hunit, rfl⟩ := mem_unitMoves_publish.1 hmove
    rw [hunit]
    exact h
  · intro unit _ move hmove cell hcell other howner
    obtain ⟨_, rfl⟩ := mem_unitMoves_publish.1 hmove
    obtain rfl : cell = .value unit := List.mem_singleton.1 hcell
    rw [← Option.some.inj howner]

theorem Instr.owned_fetchCarry (h : common (.total frame.position.toNat) = none) :
    Instr.fetchCarry.Owned frame common := by
  refine ⟨?_, ?_⟩
  · intro unit _ move hmove
    simp_all [unitMoves, Cell.owner]
  · intro unit _ move hmove cell hcell other howner
    simp_all [unitMoves, Move.reads, Operand.reads, Cell.owner]

end Instr

/-! ## Owners in the phases of a scan -/

section Scan

variable {frame : Frame}

/-- While the items of a region are stored, an item belongs to the unit that it is assigned to.  The total
of the block, if it is published in the phase, belongs to `publisher`. -/
def Frame.itemOwner (frame : Frame) (region : Region) (publisher : Option Nat) : Cell → Option Nat
  | .source index =>
    if region = .source then some ((BitVec.ofNat 32 index - frame.offset).toNat % frame.cubeDim)
    else none
  | .shared level index => if region = .shared level then some (index % frame.cubeDim) else none
  | .total _ => publisher
  | _ => none

/-- While the totals of a level are posted, the total of a chunk belongs to the unit of its last item. -/
def Frame.chunkOwner (frame : Frame) (level : Nat) : Cell → Option Nat
  | .shared level' chunk =>
    if level' = level then some (frame.lastOf chunk % frame.cubeDim) else none
  | _ => none

theorem Frame.itemOwner_cell (item : Index) (region : Region) (publisher : Option Nat) :
    (frame.cell item region).owner (frame.itemOwner region publisher) =
      some (item.toNat % frame.cubeDim) := by
  cases region with
  | source =>
      have hitem : BitVec.ofNat 32 (frame.offset + item).toNat - frame.offset = item := by
        rw [BitVec.ofNat_toNat, BitVec.setWidth_eq, BitVec.add_comm, BitVec.add_sub_cancel]
      simp only [cell, Cell.owner, itemOwner, if_pos, hitem]
  | shared level => simp only [cell, Cell.owner, itemOwner, if_pos]

/-- Nobody owns the items of a region below while the totals of a level are posted. -/
theorem Frame.chunkOwner_cell {region : Region} {level : Nat} (hbelow : region.Below level)
    (item : Index) : (frame.cell item region).owner (frame.chunkOwner level) = none := by
  cases region with
  | source => rfl
  | shared below =>
      have hlt : below < level := hbelow
      simp only [cell, Cell.owner, chunkOwner, if_neg (Nat.ne_of_lt hlt)]

/-- The unit that takes part for an item is the unit that the item is assigned to. -/
theorem Frame.Exact.itemOf_mod {t unit : Nat} (ht : frame.Exact t) {bound : Index}
    (hunit : unit ∈ frame.lanes (BitVec.ofNat 32 t) bound) :
    (frame.itemOf (BitVec.ofNat 32 t) unit).toNat % frame.cubeDim = unit := by
  obtain ⟨hvisit, _, hitem⟩ := ht.visits_of_lane hunit
  rw [hvisit.div_mod.2, ← hitem]

section Iteration

variable {t : Nat} (ht : frame.Exact t) {bound : Index} {region : Region}
  {publisher : Option Nat} {level : Nat}
include ht

theorem Instr.owned_loadItem :
    (Instr.act (BitVec.ofNat 32 t) bound (.load region)).Owned frame
      (frame.itemOwner region publisher) := by
  apply owned_load
  intro unit hunit other howner
  rw [Frame.itemOwner_cell, ht.itemOf_mod hunit] at howner
  exact (Option.some.inj howner).symm

theorem Instr.owned_storeItem :
    (Instr.act (BitVec.ofNat 32 t) bound (.store region)).Owned frame
      (frame.itemOwner region publisher) := by
  apply owned_store
  intro unit hunit
  rw [Frame.itemOwner_cell, ht.itemOf_mod hunit]

theorem Instr.owned_post :
    (Instr.act (BitVec.ofNat 32 t) bound (.post level)).Owned frame (frame.chunkOwner level) := by
  apply owned_act
  intro unit hunit move hmove
  simp only [Action.moves] at hmove
  split at hmove
  · rename_i hlast
    simp only [List.mem_singleton] at hmove
    subst hmove
    rw [Frame.isLast_iff] at hlast
    refine ⟨?_, ?_⟩
    · simp only [Cell.owner, Frame.chunkOwner, if_pos, BitVec.toNat_udiv]
      rw [← hlast, ht.itemOf_mod hunit]
    · simp [Move.reads, Operand.reads, Cell.owner]
  · cases hmove

omit ht in
/-- The totals of a level are not written while items of a region below are stored. -/
theorem Instr.owned_prepend (hbelow : region.Below level) (iteration : Index) :
    (Instr.act iteration bound (.prepend level)).Owned frame
      (frame.itemOwner region publisher) := by
  have hfree : ∀ chunk, Cell.owner (frame.itemOwner region publisher) (.shared level chunk) = none := by
    intro chunk
    have hne : region ≠ .shared level := by
      rintro rfl
      exact Nat.lt_irrefl level hbelow
    simp only [Cell.owner, Frame.itemOwner, if_neg hne]
  apply owned_act
  intro unit _ move hmove
  simp only [Action.moves] at hmove
  split at hmove
  · simp only [List.mem_singleton] at hmove
    subst hmove
    refine ⟨rfl, ?_⟩
    intro cell hcell other howner
    simp only [Move.reads, Operand.reads, List.mem_cons, List.not_mem_nil, or_false] at hcell
    rcases hcell with rfl | rfl
    · rw [hfree] at howner
      cases howner
    · exact (Option.some.inj howner).symm
  · cases hmove

end Iteration

theorem Program.mem_unroll {iterations : Index} {body : Index → List Instr} {instr : Instr} :
    instr ∈ Program.unroll iterations body ↔
      ∃ t < iterations.toNat, instr ∈ body (BitVec.ofNat 32 t) := by
  simp [unroll]

section Phases

variable {region : Region} {level : Nat} (hbelow : region.Below level) {range padded iterations : Index}
  (hfit : range.toNat + frame.cubeDim ≤ 2 ^ 32)
  (hiterations : iterations.toNat = (range.toNat + frame.cubeDim - 1) / frame.cubeDim)
include hfit hiterations

theorem owned_planeScan {publisher : Option Nat} :
    ∀ instr ∈ Program.unroll iterations fun t =>
        chunkCode region t range padded ++ [.act t range (.store region)],
      instr.Owned frame (frame.itemOwner region publisher) := by
  intro instr hinstr
  obtain ⟨t, ht, hinstr⟩ := Program.mem_unroll.1 hinstr
  have hexact := (frame.unwrapped_of_fits hfit).exact (hiterations ▸ ht)
  simp only [chunkCode, List.cons_append, List.nil_append, List.mem_cons, List.not_mem_nil,
    or_false] at hinstr
  rcases hinstr with rfl | rfl | rfl | rfl
  · exact Instr.owned_private trivial
  · exact Instr.owned_loadItem hexact
  · exact Instr.owned_scanPlane _ _
  · exact Instr.owned_storeItem hexact

include hbelow

theorem owned_chunkPhase : ∀ instr ∈ Program.chunkPhase region level range padded iterations,
    instr.Owned frame (frame.chunkOwner level) := by
  intro instr hinstr
  obtain ⟨t, ht, hinstr⟩ := Program.mem_unroll.1 hinstr
  have hexact := (frame.unwrapped_of_fits hfit).exact (hiterations ▸ ht)
  simp only [List.mem_cons, List.not_mem_nil, or_false] at hinstr
  rcases hinstr with rfl | rfl | rfl | rfl | rfl
  · exact Instr.owned_private trivial
  · apply Instr.owned_load
    intro unit _ other howner
    rw [Frame.chunkOwner_cell hbelow] at howner
    cases howner
  · exact Instr.owned_scanPlane _ _
  · exact Instr.owned_private trivial
  · exact Instr.owned_post hexact

theorem owned_foldPhase {publisher : Option Nat} :
    ∀ instr ∈ Program.foldPhase region level range iterations,
      instr.Owned frame (frame.itemOwner region publisher) := by
  intro instr hinstr
  obtain ⟨t, ht, hinstr⟩ := Program.mem_unroll.1 hinstr
  have hexact := (frame.unwrapped_of_fits hfit).exact (hiterations ▸ ht)
  simp only [List.mem_cons, List.not_mem_nil, or_false] at hinstr
  rcases hinstr with rfl | rfl | rfl
  · exact Instr.owned_private trivial
  · exact Instr.owned_prepend hbelow _
  · exact Instr.owned_storeItem hexact

end Phases

/-- In all phases of a cube scan the cells have owners.  What follows the scan without a barrier is of its
last phase, in which items are stored. -/
theorem ScanCode.phased {settings : Settings} (hsettings : frame.settings = settings)
    {region : Region} {level : Nat} {range : Index} {code : List Instr}
    (h : ScanCode settings region level range code) (hbelow : region.Below level)
    (hfit : range.toNat + frame.cubeDim ≤ 2 ^ 32) {publisher : Option Nat} {tail : List Instr}
    (htail : ∀ instr ∈ tail, instr.Owned frame (frame.itemOwner region publisher)) :
    Phased frame (code ++ tail) := by
  subst hsettings
  induction h generalizing publisher tail with
  | @plane region level range padded iterations _ hiterations =>
      exact phased_append (owned_planeScan hfit hiterations) htail
  | @chunks region level range padded chunks iterations inner hless _ _ hiterations _ ih =>
      have hnone : ∀ instr ∈ ([] : List Instr),
          instr.Owned frame (frame.itemOwner (.shared level) none) := nofun
      have hmiddle := ih (Nat.lt_succ_self level) (by omega) hnone
      rw [List.append_nil] at hmiddle
      rw [List.append_assoc, List.cons_append]
      exact ((phased_of_owned (owned_chunkPhase hbelow hfit hiterations)).barrier hmiddle).barrier
        (phased_append (owned_foldPhase hbelow hfit hiterations) htail)

/-! ## Owners in the kernels of the two sweeps -/

theorem Program.reduce_phased {program : Program}
    (hprogram : Program.reduce frame.settings = .ok program)
    (hfit : frame.granularity + frame.cubeDim ≤ 2 ^ 32) : Phased frame program.code := by
  obtain ⟨scan, owner, hscan, howner, rfl⟩ := Program.reduce_eq_ok hprogram
  have hcode := ScanCode.of_cubeScan hscan (Settings.pads_of_fits hfit)
  have htail : ∀ instr ∈ [Instr.fetchItem owner (frame.settings.granularity - 1), .publish owner],
      instr.Owned frame (frame.itemOwner .source (some owner.toNat)) := by
    intro instr hinstr
    simp only [List.mem_cons, List.not_mem_nil, or_false] at hinstr
    rcases hinstr with rfl | rfl
    · apply Instr.owned_fetchItem
      intro other hother
      rw [Frame.itemOwner_cell, ← howner] at hother
      exact (Option.some.inj hother).symm
    · exact Instr.owned_publish rfl
  exact hcode.phased rfl trivial hfit htail

theorem Program.expand_phased (frame : Frame) (hfit : frame.granularity + frame.cubeDim ≤ 2 ^ 32) :
    Phased frame (Program.expand frame.settings).code := by
  have hiterations := Partition.toNat_runtimeIterations
    (p := ⟨frame.settings.granularity, frame.settings.cubeDim⟩) hfit frame.cubeDim_pos
  have howned : ∀ instr ∈ (Program.expand frame.settings).code,
      instr.Owned frame (frame.itemOwner .source none) := by
    intro instr hinstr
    rcases List.mem_cons.1 hinstr with rfl | hinstr
    · exact Instr.owned_fetchCarry rfl
    · obtain ⟨t, ht, hinstr⟩ := Program.mem_unroll.1 hinstr
      have hexact := (frame.unwrapped_of_fits hfit).exact (hiterations ▸ ht)
      simp only [List.mem_cons, List.not_mem_nil, or_false] at hinstr
      rcases hinstr with rfl | rfl | rfl
      · exact Instr.owned_loadItem hexact
      · exact Instr.owned_private trivial
      · exact Instr.owned_storeItem hexact
  exact phased_of_owned howned

end Scan

end PrefixScan.Cube
