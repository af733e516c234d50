import PrefixScan.Proofs.Cube.Working
import PrefixScan.Proofs.Rounding

/-!
# Stores

The instructions that move working values to other cells: back to the region, to the values that
units keep, and to the chunk totals of a level.  In an iteration whose item numbers do not wrap, each
of them writes exactly the cells of the iteration's items.

## Main results

* `Instr.read_place_store` — an item of a region after a store.
* `Instr.read_kept_keep` — a kept value after a keep.
* `Instr.read_shared_post` — a chunk total after a post.
-/

namespace PrefixScan.Cube

variable {α : Type} [Inhabited α] {op : Operator α} {frame : Frame} {m : Memory α}

namespace Frame

/-- Iteration `t` has item `i`. -/
def Visits (frame : Frame) (t i : Nat) : Prop :=
  t * frame.cubeDim ≤ i ∧ i < t * frame.cubeDim + frame.cubeDim

instance (t i : Nat) : Decidable (frame.Visits t i) := by
  unfold Visits
  infer_instance

theorem Visits.unit_lt {t i : Nat} (h : frame.Visits t i) : i - t * frame.cubeDim < frame.cubeDim := by
  obtain ⟨hlow, hhigh⟩ := h
  omega

theorem Visits.lt_succ_mul {t i : Nat} (h : frame.Visits t i) : i < (t + 1) * frame.cubeDim := by
  rw [Nat.succ_mul]
  exact h.2

/-- The iteration and the unit of an item. -/
theorem Visits.div_mod {t i : Nat} (h : frame.Visits t i) :
    i / frame.cubeDim = t ∧ i % frame.cubeDim = i - t * frame.cubeDim :=
  block_of_range h.1 h.lt_succ_mul

/-- One more iteration makes no difference to the items it does not have. -/
theorem lt_succ_mul_iff {t i : Nat} (h : ¬frame.Visits t i) :
    i < (t + 1) * frame.cubeDim ↔ i < t * frame.cubeDim := by
  unfold Visits at h
  rw [Nat.succ_mul]
  omega

theorem place_inj {i j : Nat} {region : Region} :
    frame.place i region = frame.place j region ↔ i = j := by
  cases region <;> simp [place]

/-- The unit of an item takes part in the iteration that has the item. -/
theorem Exact.lane_of_visits {t i : Nat} (ht : frame.Exact t) (hi : frame.Visits t i)
    {bound : Index} (hbound : i < bound.toNat) :
    i - t * frame.cubeDim ∈ frame.lanes (BitVec.ofNat 32 t) bound ∧
      (frame.itemOf (BitVec.ofNat 32 t) (i - t * frame.cubeDim)).toNat = i := by
  have hitem : t * frame.cubeDim + (i - t * frame.cubeDim) = i := Nat.add_sub_of_le hi.1
  refine ⟨ht.mem_lanes.2 ⟨hi.unit_lt, hitem.symm ▸ hbound⟩, ?_⟩
  rw [ht.toNat_itemOf hi.unit_lt, hitem]

theorem Exact.visits_of_lane {t unit : Nat} (ht : frame.Exact t) {bound : Index}
    (hunit : unit ∈ frame.lanes (BitVec.ofNat 32 t) bound) :
    frame.Visits t (frame.itemOf (BitVec.ofNat 32 t) unit).toNat ∧
      (frame.itemOf (BitVec.ofNat 32 t) unit).toNat < bound.toNat ∧
      unit = (frame.itemOf (BitVec.ofNat 32 t) unit).toNat - t * frame.cubeDim := by
  obtain ⟨hlt, hbound⟩ := ht.mem_lanes.1 hunit
  rw [ht.toNat_itemOf hlt]
  exact ⟨⟨by omega, by omega⟩, hbound, by omega⟩

end Frame

/-! ## Items of a region -/

theorem Instr.read_place_store {region : Region} {t : Nat} (ht : frame.Exact t) {range : Index}
    (hreach : frame.Reaches range.toNat region) {i : Nat} (hi : i < range.toNat)
    (hheld : m.Holds (frame.place i region)) :
    ((Instr.act (BitVec.ofNat 32 t) range (.store region)).run op frame m).read
        (frame.place i region) =
      if frame.Visits t i then m.read (.value (i - t * frame.cubeDim))
      else m.read (frame.place i region) := by
  split
  · rename_i hvisit
    obtain ⟨hlane, hitem⟩ := ht.lane_of_visits hvisit hi
    have hcell : frame.cell (frame.itemOf (BitVec.ofNat 32 t) (i - t * frame.cubeDim)) region =
        frame.place i region := by
      rw [hreach.cell_eq (by rw [hitem]; exact hi), hitem]
    have hmove : (⟨frame.place i region, .copy (.value (i - t * frame.cubeDim))⟩ : Move) ∈
        (Action.store region).moves frame (BitVec.ofNat 32 t)
          (frame.itemOf (BitVec.ofNat 32 t) (i - t * frame.cubeDim)) (i - t * frame.cubeDim) := by
      simp [Action.moves, hcell]
    exact Instr.read_act hlane hmove hheld
  · rename_i hvisit
    apply Instr.read_act_of_ne
    intro unit hunit move hmove
    obtain ⟨hvisit', hbound, _⟩ := ht.visits_of_lane hunit
    simp only [Action.moves, List.mem_singleton] at hmove
    subst hmove
    rw [hreach.cell_eq hbound]
    intro hsame
    rw [Frame.place_inj] at hsame
    exact hvisit (hsame ▸ hvisit')

theorem Instr.read_store_of_ne {region : Region} {iteration range : Index}
    (hreach : frame.Reaches range.toNat region) {cell : Cell}
    (hcell : ∀ i < range.toNat, cell ≠ frame.place i region) :
    ((Instr.act iteration range (.store region)).run op frame m).read cell = m.read cell := by
  apply Instr.read_act_of_ne
  intro unit hunit move hmove
  have hbound := BitVec.lt_def.1 (frame.mem_lanes.1 hunit).2
  simp only [Action.moves, List.mem_singleton] at hmove
  subst hmove
  rw [hreach.cell_eq hbound]
  exact (hcell _ hbound).symm

/-! ## Kept values -/

theorem Instr.read_kept_keep {level : Nat} {t : Nat} (ht : frame.Exact t) {bound : Index}
    {unit : Nat} (hunit : unit < frame.cubeDim) (hitem : t * frame.cubeDim + unit < bound.toNat)
    (hheld : m.Holds (.kept level unit t)) :
    ((Instr.act (BitVec.ofNat 32 t) bound (.keep level)).run op frame m).read
        (.kept level unit t) = m.read (.value unit) := by
  have hword : (BitVec.ofNat 32 t).toNat = t := by
    rw [BitVec.toNat_ofNat, Nat.mod_eq_of_lt ht.lt]
  have hmove : (⟨.kept level unit t, .copy (.value unit)⟩ : Move) ∈
      (Action.keep level).moves frame (BitVec.ofNat 32 t)
        (frame.itemOf (BitVec.ofNat 32 t) unit) unit := by
    simp [Action.moves, hword]
  exact Instr.read_act (ht.mem_lanes.2 ⟨hunit, hitem⟩) hmove hheld

theorem Instr.read_keep_of_ne {level : Nat} {t : Nat} (ht : frame.Exact t) {bound : Index}
    {cell : Cell} (hcell : ∀ unit, cell ≠ .kept level unit t) :
    ((Instr.act (BitVec.ofNat 32 t) bound (.keep level)).run op frame m).read cell =
      m.read cell := by
  apply Instr.read_act_of_ne
  intro unit _ move hmove
  have hword : (BitVec.ofNat 32 t).toNat = t := by
    rw [BitVec.toNat_ofNat, Nat.mod_eq_of_lt ht.lt]
  simp only [Action.moves, List.mem_singleton] at hmove
  subst hmove
  rw [hword]
  exact (hcell unit).symm

/-! ## Chunk totals -/

/-- The last item of a chunk. -/
def Frame.lastOf (frame : Frame) (chunk : Nat) : Nat := chunk * frame.planeDim + (frame.planeDim - 1)

theorem Frame.lastOf_div (chunk : Nat) : frame.lastOf chunk / frame.planeDim = chunk := by
  have hpos := frame.planeDim_pos
  rw [lastOf, Nat.mul_comm, Nat.mul_add_div hpos, Nat.div_eq_of_lt (by omega), Nat.add_zero]

theorem Frame.lastOf_mod (chunk : Nat) :
    frame.lastOf chunk % frame.planeDim = frame.planeDim - 1 := by
  have hpos := frame.planeDim_pos
  rw [lastOf, Nat.mul_comm, Nat.mul_add_mod, Nat.mod_eq_of_lt (by omega)]

/-- The device's test for the last item of a chunk. -/
theorem Frame.isLast_iff (frame : Frame) (item : Index) :
    item % frame.settings.planeDim = frame.settings.planeDim - 1 ↔
      item.toNat = frame.lastOf (item.toNat / frame.planeDim) := by
  have htwo := frame.settings.two_le_planeDim
  have hsub := Word.toNat_sub_one frame.planeDim_pos
  have hsplit := Nat.div_add_mod' item.toNat frame.planeDim
  rw [← BitVec.toNat_inj, BitVec.toNat_umod, hsub]
  constructor
  · intro hmod
    rw [Frame.lastOf, ← hmod]
    exact hsplit.symm
  · intro hlast
    rw [hlast]
    exact Frame.lastOf_mod _

theorem Instr.read_shared_post {level : Nat} {t : Nat} (ht : frame.Exact t) {bound : Index}
    {chunk : Nat} (hbound : frame.lastOf chunk < bound.toNat)
    (hheld : m.Holds (.shared level chunk)) :
    ((Instr.act (BitVec.ofNat 32 t) bound (.post level)).run op frame m).read
        (.shared level chunk) =
      if frame.Visits t (frame.lastOf chunk) then
        m.read (.value (frame.lastOf chunk - t * frame.cubeDim))
      else m.read (.shared level chunk) := by
  split
  · rename_i hvisit
    obtain ⟨hlane, hitem⟩ := ht.lane_of_visits hvisit hbound
    have hmove : (⟨.shared level chunk,
        .copy (.value (frame.lastOf chunk - t * frame.cubeDim))⟩ : Move) ∈
        (Action.post level).moves frame (BitVec.ofNat 32 t)
          (frame.itemOf (BitVec.ofNat 32 t) (frame.lastOf chunk - t * frame.cubeDim))
          (frame.lastOf chunk - t * frame.cubeDim) := by
      have hlast := frame.isLast_iff
        (frame.itemOf (BitVec.ofNat 32 t) (frame.lastOf chunk - t * frame.cubeDim))
      rw [hitem, Frame.lastOf_div] at hlast
      simp [Action.moves, hlast.2 rfl, BitVec.toNat_udiv, hitem, Frame.lastOf_div]
    exact Instr.read_act hlane hmove hheld
  · rename_i hvisit
    apply Instr.read_act_of_ne
    intro unit hunit move hmove
    obtain ⟨hvisit', _, _⟩ := ht.visits_of_lane hunit
    simp only [Action.moves] at hmove
    split at hmove
    · rename_i hlast
      simp only [List.mem_singleton] at hmove
      subst hmove
      intro hsame
      simp only [Cell.shared.injEq, true_and, BitVec.toNat_udiv] at hsame
      rw [Frame.isLast_iff, hsame] at hlast
      exact hvisit (hlast ▸ hvisit')
    · cases hmove

theorem Instr.read_post_of_ne {level : Nat} {iteration bound : Index} {cell : Cell}
    (hcell : ∀ chunk, cell ≠ .shared level chunk) :
    ((Instr.act iteration bound (.post level)).run op frame m).read cell = m.read cell := by
  apply Instr.read_act_of_ne
  intro unit _ move hmove
  simp only [Action.moves] at hmove
  split at hmove
  · simp only [List.mem_singleton] at hmove
    subst hmove
    exact (hcell _).symm
  · cases hmove

end PrefixScan.Cube
