import PrefixScan.Proofs.Cube.PlaneScan

/-!
# The phases of a scan by chunks

The first phase keeps the scanned items of a range and posts the chunk totals; the last phase combines
what was kept with the scanned totals and stores it.  Between them the totals are scanned by the same
program one level up, which touches neither the region nor what was kept.

The padding of the last chunk does reach what is kept and posted for it.  Both phases are therefore
stated over the padded items, and it is left to the scan as a whole to see that padded items are
behind every item of the range.

## Main results

* `chunkPhase_run` — the kept values and the totals after the first phase.
* `foldPhase_run` — the items after the last phase.
-/

namespace PrefixScan.Cube

open Bracketing

variable {α : Type} [Inhabited α] {op : Operator α} {frame : Frame} {m : Memory α}

/-- The chain of the padded items of a chunk, up to item `i`. -/
def Frame.chained (op : Operator α) (frame : Frame) (m : Memory α) (region : Region)
    (range i : Nat) : α :=
  (chain (i % frame.planeDim)).eval op.combine fun j =>
    frame.items op m region range (i / frame.planeDim * frame.planeDim + j)

/-! ## First phase -/

/-- The first phase over `range` items of a region, at a level, after `n` iterations. -/
structure ChunkedTo (op : Operator α) (frame : Frame) (m : Memory α) (region : Region)
    (level range padded n : Nat) (m' : Memory α) : Prop where
  holds : ∀ cell, m'.Holds cell ↔ m.Holds cell
  kept : ∀ unit < frame.cubeDim, ∀ t < n, t * frame.cubeDim + unit < padded →
    m'.read (.kept level unit t) =
      frame.chained op m region range (t * frame.cubeDim + unit)
  totals : ∀ chunk, frame.lastOf chunk < padded → frame.lastOf chunk < n * frame.cubeDim →
    m'.read (.shared level chunk) = frame.chained op m region range (frame.lastOf chunk)
  others : ∀ cell, (∀ unit, cell ≠ .value unit) → (∀ unit t, cell ≠ .kept level unit t) →
    (∀ chunk, cell ≠ .shared level chunk) → m'.read cell = m.read cell

/-- The region is no scratch memory of the level or of a level above. -/
def Region.Below (level : Nat) : Region → Prop
  | .source => True
  | .shared level' => level' < level

theorem Region.Below.place_ne_shared {region : Region} {level : Nat} (h : region.Below level)
    (i chunk : Nat) {level' : Nat} (hle : level ≤ level') :
    frame.place i region ≠ .shared level' chunk := by
  cases region with
  | source => simp [Frame.place]
  | shared below =>
      have hlt : below < level := h
      simp only [Frame.place, ne_eq, Cell.shared.injEq, not_and]
      omega

theorem Frame.place_ne_kept (i : Nat) (region : Region) (level unit t : Nat) :
    frame.place i region ≠ .kept level unit t := by
  cases region <;> simp [place]

theorem ChunkedTo.step {region : Region} {level : Nat} (hbelow : region.Below level) {t : Nat}
    (ht : frame.Exact t) {range padded : Index} (hreach : frame.Reaches range.toNat region)
    (hvalue : ∀ unit < frame.cubeDim, m.Holds (.value unit))
    (hkept : ∀ unit < frame.cubeDim, m.Holds (.kept level unit t))
    (hshared : ∀ chunk, frame.lastOf chunk < padded.toNat → m.Holds (.shared level chunk))
    {m' : Memory α} (h : ChunkedTo op frame m region level range.toNat padded.toNat t m') :
    ChunkedTo op frame m region level range.toNat padded.toNat (t + 1)
      (runCode op frame m' (chunkCode region (BitVec.ofNat 32 t) range padded ++
        [.act (BitVec.ofNat 32 t) padded (.keep level),
          .act (BitVec.ofNat 32 t) padded (.post level)])) := by
  rw [runCode_append]
  let scanned := runCode op frame m' (chunkCode region (BitVec.ofNat 32 t) range padded)
  let keeping := Instr.run op frame scanned (.act (BitVec.ofNat 32 t) padded (.keep level))
  have hheld : ∀ cell, scanned.Holds cell ↔ m.Holds cell := fun cell =>
    (holds_runCode _ m' cell).trans (h.holds cell)
  have hheld' : ∀ cell, keeping.Holds cell ↔ m.Holds cell := fun cell =>
    (Instr.holds_run _ scanned cell).trans (hheld cell)
  have hchained : ∀ unit < frame.cubeDim, t * frame.cubeDim + unit < padded.toNat →
      scanned.read (.value unit) =
        frame.chained op m region range.toNat (t * frame.cubeDim + unit) := by
    intro unit hunit hitem
    rw [read_value_chunkCode ht hreach (fun unit hunit => (h.holds _).2 (hvalue unit hunit))
      hunit hitem, Frame.chained]
    have hitems : frame.items op m' region range.toNat = frame.items op m region range.toNat := by
      funext i
      rw [Frame.items, Frame.items, h.others _ (frame.place_ne_value i region)
        (frame.place_ne_kept i region level) fun chunk =>
          hbelow.place_ne_shared i chunk (Nat.le_refl _)]
    rw [hitems]
  show ChunkedTo op frame m region level range.toNat padded.toNat (t + 1)
    (Instr.run op frame keeping _)
  refine
    { holds := fun cell => (Instr.holds_run _ keeping cell).trans (hheld' cell)
      kept := ?_
      totals := ?_
      others := ?_ }
  · intro unit hunit s hs hitem
    rw [Instr.read_post_of_ne (by simp)]
    by_cases hlast : s = t
    · subst hlast
      rw [Instr.read_kept_keep ht hunit hitem ((hheld _).2 (hkept unit hunit))]
      exact hchained unit hunit hitem
    · rw [Instr.read_keep_of_ne ht (by simp; omega), read_chunkCode_of_ne (by simp)]
      exact h.kept unit hunit s (by omega) hitem
  · intro chunk hchunk hdone
    rw [Instr.read_shared_post ht hchunk ((hheld' _).2 (hshared chunk hchunk))]
    split
    · rename_i hvisit
      have hitem : t * frame.cubeDim + (frame.lastOf chunk - t * frame.cubeDim) =
          frame.lastOf chunk := Nat.add_sub_of_le hvisit.1
      rw [Instr.read_keep_of_ne ht (by simp), hchained _ hvisit.unit_lt (by omega), hitem]
    · rename_i hvisit
      have hdone' : frame.lastOf chunk < t * frame.cubeDim :=
        (Frame.lt_succ_mul_iff hvisit).1 hdone
      rw [Instr.read_keep_of_ne ht (by simp), read_chunkCode_of_ne (by simp)]
      exact h.totals chunk hchunk hdone'
  · intro cell hcell hcellKept hcellShared
    rw [Instr.read_post_of_ne hcellShared, Instr.read_keep_of_ne ht fun unit => hcellKept unit t,
      read_chunkCode_of_ne hcell]
    exact h.others cell hcell hcellKept hcellShared

theorem chunkPhase_run {region : Region} {level : Nat} (hbelow : region.Below level)
    {range padded iterations : Index} (hwords : frame.Unwrapped range.toNat)
    (hiterations : iterations.toNat = (range.toNat + frame.cubeDim - 1) / frame.cubeDim)
    (hreach : frame.Reaches range.toNat region)
    (hvalue : ∀ unit < frame.cubeDim, m.Holds (.value unit))
    (hkept : ∀ unit < frame.cubeDim, ∀ t < iterations.toNat, m.Holds (.kept level unit t))
    (hshared : ∀ chunk, frame.lastOf chunk < padded.toNat → m.Holds (.shared level chunk)) :
    ChunkedTo op frame m region level range.toNat padded.toNat iterations.toNat
      (runCode op frame m (Program.chunkPhase region level range padded iterations)) := by
  apply runCode_unroll
  · exact
      { holds := fun _ => Iff.rfl
        kept := fun _ _ t ht => absurd ht (Nat.not_lt_zero t)
        totals := fun _ _ hdone => absurd hdone (by simp)
        others := fun _ _ _ _ => rfl }
  · intro t ht m' hm'
    have hexact := hwords.exact (hiterations ▸ ht)
    exact hm'.step hbelow hexact hreach hvalue (fun unit hunit => hkept unit hunit t ht) hshared

/-! ## Last phase -/

/-- What the last phase makes of item `i`: the kept value, preceded by the total of the chunks before
its own if there are any. -/
def Frame.folded (op : Operator α) (frame : Frame) (m : Memory α) (level i : Nat) : α :=
  let kept := m.read (.kept level (i % frame.cubeDim) (i / frame.cubeDim))
  if frame.planeDim ≤ i then
    op.combine (m.read (.shared level (i / frame.planeDim - 1))) kept
  else kept

/-- The last phase over `range` items of a region, at a level, after `n` iterations. -/
structure FoldedTo (op : Operator α) (frame : Frame) (m : Memory α) (region : Region)
    (level range n : Nat) (m' : Memory α) : Prop where
  holds : ∀ cell, m'.Holds cell ↔ m.Holds cell
  items : ∀ i < range, m'.read (frame.place i region) =
    if i < n * frame.cubeDim then frame.folded op m level i else m.read (frame.place i region)
  others : ∀ cell, (∀ unit, cell ≠ .value unit) → (∀ i < range, cell ≠ frame.place i region) →
    m'.read cell = m.read cell

theorem Action.onValue_recall (level : Nat) : (Action.recall level).OnValue := by
  intro frame iteration item unit move hmove
  simp_all [moves]

theorem Action.onValue_prepend (level : Nat) : (Action.prepend level).OnValue := by
  intro frame iteration item unit move hmove
  simp only [moves] at hmove
  split at hmove <;> simp_all

/-- The device's choice between items of the first chunk and later ones. -/
theorem Action.result_prepend {iteration item : Index} {level unit : Nat} :
    (Action.prepend level).result op frame m iteration item unit =
      if frame.planeDim ≤ item.toNat then
        op.combine (m.read (.shared level (item.toNat / frame.planeDim - 1)))
          (m.read (.value unit))
      else m.read (.value unit) := by
  have hpos := frame.planeDim_pos
  unfold Action.result
  by_cases h : frame.settings.planeDim ≤ item
  · have hle := BitVec.le_def.1 h
    have hone : 1 ≤ item.toNat / frame.planeDim := (Nat.one_le_div_iff hpos).2 hle
    have hprev : (item / frame.settings.planeDim - 1).toNat = item.toNat / frame.planeDim - 1 := by
      have hquot : (item / frame.settings.planeDim).toNat = item.toNat / frame.planeDim :=
        BitVec.toNat_udiv
      rw [Word.toNat_sub_one (hquot ▸ hone), hquot]
    simp only [moves, if_pos h, if_pos hle, Operand.eval, hprev]
  · have hlt := fun hle => h (BitVec.le_def.2 hle)
    simp only [moves, if_neg h, if_neg hlt]

theorem FoldedTo.step {region : Region} {level : Nat} (hbelow : region.Below level) {t : Nat}
    (ht : frame.Exact t) {range : Index} (hreach : frame.Reaches range.toNat region)
    (hvalue : ∀ unit < frame.cubeDim, m.Holds (.value unit))
    (hregion : ∀ i < range.toNat, m.Holds (frame.place i region)) {m' : Memory α}
    (h : FoldedTo op frame m region level range.toNat t m') :
    FoldedTo op frame m region level range.toNat (t + 1)
      (runCode op frame m' [.act (BitVec.ofNat 32 t) range (.recall level),
        .act (BitVec.ofNat 32 t) range (.prepend level),
        .act (BitVec.ofNat 32 t) range (.store region)]) := by
  let recalled := Instr.run op frame m' (.act (BitVec.ofNat 32 t) range (.recall level))
  let prepended := Instr.run op frame recalled (.act (BitVec.ofNat 32 t) range (.prepend level))
  have hheld : ∀ cell, recalled.Holds cell ↔ m.Holds cell := fun cell =>
    (Instr.holds_run _ m' cell).trans (h.holds cell)
  have hheld' : ∀ cell, prepended.Holds cell ↔ m.Holds cell := fun cell =>
    (Instr.holds_run _ recalled cell).trans (hheld cell)
  -- the loop stores to the region only, so what it recalls is as it was before
  have hkept : ∀ unit s, m'.read (.kept level unit s) = m.read (.kept level unit s) :=
    fun unit s => h.others _ (by simp) fun i _ => (frame.place_ne_kept i region level unit s).symm
  have hshared : ∀ chunk, m'.read (.shared level chunk) = m.read (.shared level chunk) :=
    fun chunk => h.others _ (by simp) fun i _ =>
      (hbelow.place_ne_shared i chunk (Nat.le_refl _)).symm
  show FoldedTo op frame m region level range.toNat (t + 1) (Instr.run op frame prepended _)
  refine
    { holds := fun cell => (Instr.holds_run _ prepended cell).trans (hheld' cell)
      items := ?_
      others := ?_ }
  · intro i hi
    rw [Instr.read_place_store ht hreach hi ((hheld' _).2 (hregion i hi))]
    by_cases hvisit : frame.Visits t i
    · obtain ⟨hlane, hitem⟩ := ht.lane_of_visits hvisit hi
      obtain ⟨hdiv, hmod⟩ := hvisit.div_mod
      have hword : (BitVec.ofNat 32 t).toNat = t := by
        rw [BitVec.toNat_ofNat, Nat.mod_eq_of_lt ht.lt]
      have hrecalled : recalled.read (.value (i - t * frame.cubeDim)) =
          m.read (.kept level (i % frame.cubeDim) (i / frame.cubeDim)) := by
        rw [Instr.read_value_act (Action.onValue_recall level)
          ((h.holds _).2 (hvalue _ hvisit.unit_lt)), if_pos hlane, hmod, hdiv, ← hkept]
        show m'.read (.kept level _ (BitVec.ofNat 32 t).toNat) = _
        rw [hword]
      have htotal : recalled.read (.shared level (i / frame.planeDim - 1)) =
          m.read (.shared level (i / frame.planeDim - 1)) := by
        rw [Instr.read_act_of_onValue (Action.onValue_recall level) (by simp), hshared]
      rw [if_pos hvisit, if_pos hvisit.lt_succ_mul, Instr.read_value_act
          (Action.onValue_prepend level) ((hheld _).2 (hvalue _ hvisit.unit_lt)),
        if_pos hlane, Action.result_prepend, hitem, hrecalled, htotal]
      rfl
    · rw [if_neg hvisit, Instr.read_act_of_onValue (Action.onValue_prepend level)
        (frame.place_ne_value i region), Instr.read_act_of_onValue (Action.onValue_recall level)
        (frame.place_ne_value i region), h.items i hi]
      simp only [Frame.lt_succ_mul_iff hvisit]
  · intro cell hcell hplace
    rw [Instr.read_store_of_ne hreach hplace, Instr.read_act_of_onValue
      (Action.onValue_prepend level) hcell, Instr.read_act_of_onValue
      (Action.onValue_recall level) hcell]
    exact h.others cell hcell hplace

theorem foldPhase_run {region : Region} {level : Nat} (hbelow : region.Below level)
    {range iterations : Index} (hwords : frame.Unwrapped range.toNat)
    (hiterations : iterations.toNat = (range.toNat + frame.cubeDim - 1) / frame.cubeDim)
    (hreach : frame.Reaches range.toNat region)
    (hvalue : ∀ unit < frame.cubeDim, m.Holds (.value unit))
    (hregion : ∀ i < range.toNat, m.Holds (frame.place i region)) :
    FoldedTo op frame m region level range.toNat iterations.toNat
      (runCode op frame m (Program.foldPhase region level range iterations)) := by
  apply runCode_unroll
  · exact ⟨fun _ => Iff.rfl, fun i _ => by simp, fun _ _ _ => rfl⟩
  · intro t ht m' hm'
    have hexact := hwords.exact (hiterations ▸ ht)
    exact hm'.step hbelow hexact hreach hvalue hregion

end PrefixScan.Cube
