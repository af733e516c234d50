import PrefixScan.Proofs.Cube.CubeScan
import PrefixScan.Proofs.Partition.Sweep

/-!
# The kernels of the two sweeps

What one cube of a reduction or of an expansion does to the buffers of its launch.  Neither depends on
what fresh memory holds, and neither touches the source outside of the block of the cube.

## Main results

* `Program.reduce_run` — a reduction scans a block in place and stores its total.
* `Program.expand_run` — an expansion combines a block with the total of its position.
-/

namespace PrefixScan.Cube

open Bracketing

variable {α : Type} [Inhabited α] {op : Operator α} {frame : Frame} {fill : α}

/-! ## Fresh memory -/

omit [Inhabited α] in
theorem getD_map_toArray {β : Type} {l : List β} {k : Nat} {x : β} (h : l[k]? = some x)
    (f : β → α) (d : α) : ((l.map f).toArray).getD k d = f x := by
  simp [Array.getD_eq_getD_getElem?, h]

omit [Inhabited α] in
/-- A cube enters a program with room for it. -/
theorem Program.fits_enter (program : Program) (buffers : Buffers α) {range : Nat}
    (hrange : frame.offset.toNat + range ≤ buffers.source.size) :
    program.Fits frame (program.enter frame.cubeDim fill buffers.source buffers.totals)
      .source 0 range := by
  refine ⟨?_, ?_, ?_, ?_⟩
  · intro unit hunit
    simpa [Memory.Holds, enter] using hunit
  · intro i hi
    show frame.offset.toNat + i < buffers.source.size
    omega
  · intro k len hlen chunk hchunk
    simp only [Memory.Holds, enter, Nat.zero_add]
    rw [getD_map_toArray hlen]
    simpa using hchunk
  · intro k iterations hiterations unit hunit t ht
    simp only [Memory.Holds, enter, Nat.zero_add]
    rw [getD_map_toArray hiterations]
    simp only [Array.getD_eq_getD_getElem?, Array.getElem?_replicate, if_pos hunit,
      Option.getD_some, Array.size_replicate]
    exact ht

/-! ## Instructions of one unit -/

section One

variable {m : Memory α} {move : Move}

/-- Making a move again changes nothing. -/
theorem Move.read_applyAll_of_forall {moves : List Move} (hne : moves ≠ [])
    (hsame : ∀ other ∈ moves, other = move) (hself : move.target ∉ move.reads)
    (hheld : m.Holds move.target) :
    (applyAll op m moves).read move.target = move.operand.eval op m := by
  induction moves generalizing m with
  | nil => exact absurd rfl hne
  | cons head rest ih =>
      obtain rfl : head = move := hsame head (by simp)
      have hheld' : (apply op m head).Holds head.target := (Memory.holds_write m _ _ _).2 hheld
      cases hrest : rest with
      | nil => exact Memory.read_write_self hheld _
      | cons next others =>
          have hagain := ih (by simp [hrest]) (fun other h => hsame other (by simp [h])) hheld'
          rw [← hrest]
          refine hagain.trans (Operand.eval_congr fun cell hcell => ?_)
          apply Memory.read_write_of_ne
          rintro rfl
          exact hself hcell

/-- The moves of an instruction for one unit: those of the unit's plane. -/
def movesOf (frame : Frame) (unit : Nat) (move : Move) : List Move :=
  (List.range frame.numPlanes).flatMap fun plane =>
    if unit ∈ frame.units plane then [move] else []

theorem mem_movesOf {unit : Nat} (hunit : unit < frame.cubeDim) {other : Move} :
    other ∈ movesOf frame unit move ↔ other = move := by
  have hplane : unit ∈ (List.range frame.numPlanes).flatMap frame.units := by
    rw [Frame.flatMap_units]
    exact List.mem_range.2 hunit
  obtain ⟨plane, hplane, hmem⟩ := List.mem_flatMap.1 hplane
  constructor
  · intro h
    obtain ⟨plane', _, h⟩ := List.mem_flatMap.1 h
    split at h
    · exact List.mem_singleton.1 h
    · cases h
  · rintro rfl
    exact List.mem_flatMap.2 ⟨plane, hplane, by simp [hmem]⟩

theorem read_movesOf {unit : Nat} (hunit : unit < frame.cubeDim)
    (hself : move.target ∉ move.reads) (hheld : m.Holds move.target) :
    (Move.applyAll op m (movesOf frame unit move)).read move.target = move.operand.eval op m := by
  apply Move.read_applyAll_of_forall _ (fun other => (mem_movesOf hunit).1) hself hheld
  exact List.ne_nil_of_mem ((mem_movesOf hunit).2 rfl)

theorem read_movesOf_of_ne {unit : Nat} (hunit : unit < frame.cubeDim) {cell : Cell}
    (hcell : cell ≠ move.target) :
    (Move.applyAll op m (movesOf frame unit move)).read cell = m.read cell := by
  apply Move.read_applyAll_of_ne
  intro other hother
  rw [(mem_movesOf hunit).1 hother]
  exact hcell.symm

theorem Instr.run_fetchItem (unit item : Index) :
    (Instr.fetchItem unit item).run op frame m = Move.applyAll op m (movesOf frame unit.toNat
      ⟨.value unit.toNat, .copy (frame.cell item .source)⟩) := by
  rw [Instr.run, applyAll_flatMap]
  rfl

theorem Instr.read_fetchItem {unit item : Index} (hunit : unit.toNat < frame.cubeDim)
    (hheld : m.Holds (.value unit.toNat)) :
    ((Instr.fetchItem unit item).run op frame m).read (.value unit.toNat) =
      m.read (frame.cell item .source) := by
  rw [run_fetchItem]
  exact read_movesOf hunit (by simp [Move.reads, Operand.reads, Frame.cell]) hheld

theorem Instr.read_fetchItem_of_ne {unit item : Index} (hunit : unit.toNat < frame.cubeDim)
    {cell : Cell} (hcell : cell ≠ .value unit.toNat) :
    ((Instr.fetchItem unit item).run op frame m).read cell = m.read cell := by
  rw [run_fetchItem, read_movesOf_of_ne hunit hcell]

theorem Instr.run_publish (unit : Index) :
    (Instr.publish unit).run op frame m = Move.applyAll op m (movesOf frame unit.toNat
      ⟨.total frame.position.toNat, .copy (.value unit.toNat)⟩) := by
  rw [Instr.run, applyAll_flatMap]
  rfl

theorem Instr.read_publish {unit : Index} (hunit : unit.toNat < frame.cubeDim)
    (hheld : m.Holds (.total frame.position.toNat)) :
    ((Instr.publish unit).run op frame m).read (.total frame.position.toNat) =
      m.read (.value unit.toNat) := by
  rw [run_publish]
  exact read_movesOf hunit (by simp [Move.reads, Operand.reads]) hheld

theorem Instr.read_publish_of_ne {unit : Index} (hunit : unit.toNat < frame.cubeDim)
    {cell : Cell} (hcell : cell ≠ .total frame.position.toNat) :
    ((Instr.publish unit).run op frame m).read cell = m.read cell := by
  rw [run_publish, read_movesOf_of_ne hunit hcell]

/-- One unit publishes an item of the block. -/
theorem runCode_publishItem {unit item : Index} (hunit : unit.toNat < frame.cubeDim)
    (hheld : m.Holds (.value unit.toNat)) :
    let m' := runCode op frame m [.fetchItem unit item, .publish unit]
    (∀ i, m'.read (.source i) = m.read (.source i)) ∧
    (m.Holds (.total frame.position.toNat) →
      m'.read (.total frame.position.toNat) = m.read (frame.cell item .source)) ∧
    (∀ k, k ≠ frame.position.toNat → m'.read (.total k) = m.read (.total k)) := by
  let fetched := Instr.run op frame m (.fetchItem unit item)
  show (∀ i, (Instr.run op frame fetched (.publish unit)).read (.source i) = _) ∧
    (_ → (Instr.run op frame fetched (.publish unit)).read _ = _) ∧
    (∀ k, k ≠ _ → (Instr.run op frame fetched (.publish unit)).read (.total k) = _)
  refine ⟨?_, ?_, ?_⟩
  · intro i
    rw [Instr.read_publish_of_ne hunit (by simp), Instr.read_fetchItem_of_ne hunit (by simp)]
  · intro htotal
    rw [Instr.read_publish hunit ((Instr.holds_run _ m _).2 htotal),
      Instr.read_fetchItem hunit hheld]
  · intro k hk
    rw [Instr.read_publish_of_ne hunit (by simpa using hk),
      Instr.read_fetchItem_of_ne hunit (by simp)]

end One

/-! ## Reductions -/

/-- The buffers after a cube reduced its block. -/
structure Reduced (op : Operator α) (frame : Frame) (buffers after : Buffers α) : Prop where
  sourceSize : after.source.size = buffers.source.size
  totalsSize : after.totals.size = buffers.totals.size
  block : ∀ i < frame.granularity, after.source.getD (frame.offset.toNat + i) default =
    (ofCube frame.planeDim i).eval op.combine fun j =>
      buffers.source.getD (frame.offset.toNat + j) default
  outside : ∀ i, i < frame.offset.toNat ∨ frame.offset.toNat + frame.granularity ≤ i →
    after.source.getD i default = buffers.source.getD i default
  total : frame.position.toNat < buffers.totals.size →
    after.totals.getD frame.position.toNat default =
      (ofCube frame.planeDim (frame.granularity - 1)).eval op.combine fun j =>
        buffers.source.getD (frame.offset.toNat + j) default
  others : ∀ k, k ≠ frame.position.toNat →
    after.totals.getD k default = buffers.totals.getD k default

/-- The code of a reduction exists for all settings: a block is made of whole planes. -/
theorem Program.reduce_eq (settings : Settings) :
    ∃ (scan : Program) (owner : Index),
      Program.cubeScan settings .source 0 settings.granularity = .ok scan ∧
      owner.toNat = (settings.granularity - 1).toNat % settings.cubeDim.toNat ∧
      Program.reduce settings = .ok { scan with
        code := scan.code ++ [.fetchItem owner (settings.granularity - 1), .publish owner] } := by
  obtain ⟨scan, hscan⟩ := Program.cubeScan_isOk settings .source 0
    (Settings.pads_of_dvd settings.planeDim_dvd_granularity)
  refine ⟨scan, (settings.granularity - 1) % settings.cubeDim, hscan, BitVec.toNat_umod, ?_⟩
  have howner : (Partition.mk settings.granularity settings.cubeDim).owner
      (settings.granularity - 1) = .ok ((settings.granularity - 1) % settings.cubeDim) := by
    rw [Partition.owner, Word.rem, if_neg (Word.ne_zero_of_toNat_pos settings.cubeDim_pos)]
  simp only [Program.reduce, howner, hscan]
  rfl

theorem Program.reduce_isOk (settings : Settings) :
    ∃ program, Program.reduce settings = .ok program := by
  obtain ⟨scan, owner, _, _, hreduce⟩ := Program.reduce_eq settings
  exact ⟨_, hreduce⟩

/-- A reduction kernel is the scan of a block and the publication of its total. -/
theorem Program.reduce_eq_ok {settings : Settings} {program : Program}
    (h : Program.reduce settings = .ok program) :
    ∃ (scan : Program) (owner : Index),
      Program.cubeScan settings .source 0 settings.granularity = .ok scan ∧
      owner.toNat = (settings.granularity - 1).toNat % settings.cubeDim.toNat ∧
      program = { scan with
        code := scan.code ++ [.fetchItem owner (settings.granularity - 1), .publish owner] } := by
  obtain ⟨scan, owner, hscan, howner, hreduce⟩ := Program.reduce_eq settings
  exact ⟨scan, owner, hscan, howner, Except.ok.inj (h.symm.trans hreduce)⟩

/-- A reduction kernel has the shared memories that are announced for a block. -/
theorem Program.reduce_shared {settings : Settings} {program : Program}
    (h : Program.reduce settings = .ok program) : program.shared = settings.scratch.levels := by
  have hpads := Settings.pads_of_dvd settings.planeDim_dvd_granularity
  obtain ⟨scan, owner, hscan, _, rfl⟩ := Program.reduce_eq_ok h
  have hshared : scan.shared = settings.scratch.levels := Program.cubeScan_shared hpads hscan
  exact hshared

theorem Program.reduce_run {program : Program} {buffers : Buffers α}
    (hprogram : Program.reduce frame.settings = .ok program)
    (hfit : frame.granularity + frame.cubeDim ≤ 2 ^ 32)
    (hword : frame.offset.toNat + frame.granularity ≤ 2 ^ 32)
    (hblock : frame.offset.toNat + frame.granularity ≤ buffers.source.size) :
    Reduced op frame buffers (program.run op frame fill buffers) := by
  obtain ⟨scan, owner, hscan, howner, rfl⟩ := Program.reduce_eq_ok hprogram
  have htwo : 2 ≤ frame.granularity := frame.settings.two_le_granularity
  have hlast : (frame.settings.granularity - 1).toNat = frame.granularity - 1 :=
    Word.toNat_sub_one (Nat.zero_lt_of_lt htwo)
  have hunit : owner.toNat < frame.cubeDim := by
    rw [howner]
    exact Nat.mod_lt _ frame.cubeDim_pos
  let m := scan.enter frame.cubeDim fill buffers.source buffers.totals
  let scanned := runCode op frame m scan.code
  let published := runCode op frame scanned
    [.fetchItem owner (frame.settings.granularity - 1), .publish owner]
  have hafter : Program.run op frame fill { scan with
      code := scan.code ++ [.fetchItem owner (frame.settings.granularity - 1), .publish owner] }
      buffers = ⟨published.source, published.totals⟩ := by
    rw [Program.run, runCode_append]
    rfl
  have hfits : scan.Fits frame m .source 0 frame.granularity := Program.fits_enter scan buffers hblock
  have hscanned : CubeScanned op frame m .source 0 frame.granularity scanned :=
    cubeScan_run (show Region.Below 0 .source from trivial) hscan (frame.unwrapped_of_fits hfit)
      hword hfits
  have hholds : ∀ cell, published.Holds cell ↔ m.Holds cell := fun cell =>
    (holds_runCode _ scanned cell).trans (hscanned.holds cell)
  have hheld : scanned.Holds (.value owner.toNat) := (hscanned.holds _).2 (hfits.value _ hunit)
  obtain ⟨hsource, htotal, hothers⟩ :=
    @runCode_publishItem α _ op frame scanned owner (frame.settings.granularity - 1) hunit hheld
  have hitem : scanned.read (frame.cell (frame.settings.granularity - 1) .source) =
      scanned.read (frame.place (frame.granularity - 1) .source) := by
    have hreach : frame.Reaches frame.granularity .source := hword
    rw [← hlast, ← hreach.cell_eq (by omega)]
  rw [hafter]
  exact
    { sourceSize := eq_of_forall_lt_iff fun i => hholds (.source i)
      totalsSize := eq_of_forall_lt_iff fun k => hholds (.total k)
      block := fun i hi => (hsource _).trans (hscanned.items i hi)
      outside := fun i hi => (hsource i).trans <| hscanned.others _ (by simp) (by simp) (by simp)
        (by simp [Frame.place]; omega)
      total := fun hk => ((htotal ((hscanned.holds _).2 hk)).trans hitem).trans
        (hscanned.items _ (by omega))
      others := fun k hk => (hothers k hk).trans <| hscanned.others _ (by simp) (by simp) (by simp)
        (by simp [Frame.place]) }

/-! ## Expansions -/

/-- An expansion after `n` iterations. -/
structure ExpandedTo (op : Operator α) (frame : Frame) (m : Memory α) (n : Nat)
    (m' : Memory α) : Prop where
  holds : ∀ cell, m'.Holds cell ↔ m.Holds cell
  items : ∀ i < frame.granularity, m'.read (frame.place i .source) =
    if i < n * frame.cubeDim then
      op.combine (m.read (.carry (i % frame.cubeDim))) (m.read (frame.place i .source))
    else m.read (frame.place i .source)
  others : ∀ cell, (∀ unit, cell ≠ .value unit) →
    (∀ i < frame.granularity, cell ≠ frame.place i .source) → m'.read cell = m.read cell

theorem Action.onValue_prependCarry : Action.prependCarry.OnValue := by
  intro frame iteration item unit move hmove
  simp_all [moves]

theorem ExpandedTo.step {m : Memory α} {t : Nat} (ht : frame.Exact t)
    (hreach : frame.Reaches frame.granularity .source)
    (hvalue : ∀ unit < frame.cubeDim, m.Holds (.value unit))
    (hregion : ∀ i < frame.granularity, m.Holds (frame.place i .source)) {m' : Memory α}
    (h : ExpandedTo op frame m t m') :
    ExpandedTo op frame m (t + 1)
      (runCode op frame m' [
        .act (BitVec.ofNat 32 t) frame.settings.granularity (.load .source),
        .act (BitVec.ofNat 32 t) frame.settings.granularity .prependCarry,
        .act (BitVec.ofNat 32 t) frame.settings.granularity (.store .source)]) := by
  let loaded := Instr.run op frame m'
    (.act (BitVec.ofNat 32 t) frame.settings.granularity (.load .source))
  let prepended := Instr.run op frame loaded
    (.act (BitVec.ofNat 32 t) frame.settings.granularity .prependCarry)
  have hheld : ∀ cell, loaded.Holds cell ↔ m.Holds cell := fun cell =>
    (Instr.holds_run _ m' cell).trans (h.holds cell)
  have hheld' : ∀ cell, prepended.Holds cell ↔ m.Holds cell := fun cell =>
    (Instr.holds_run _ loaded cell).trans (hheld cell)
  have hprepended : ∀ cell, (∀ unit, cell ≠ .value unit) → prepended.read cell = m'.read cell :=
    fun cell hcell => (Instr.read_act_of_onValue Action.onValue_prependCarry hcell).trans
      (Instr.read_act_of_onValue (Action.onValue_load .source) hcell)
  show ExpandedTo op frame m (t + 1) (Instr.run op frame prepended _)
  refine ⟨fun cell => (Instr.holds_run _ prepended cell).trans (hheld' cell), ?_, ?_⟩
  · intro i hi
    rw [Instr.read_place_store ht hreach hi ((hheld' _).2 (hregion i hi))]
    by_cases hvisit : frame.Visits t i
    · obtain ⟨hlane, hitem⟩ := ht.lane_of_visits hvisit hi
      have hbefore : ¬i < t * frame.cubeDim := Nat.not_lt.2 hvisit.1
      have hloaded : loaded.read (.value (i - t * frame.cubeDim)) =
          m.read (frame.place i .source) := by
        rw [Instr.read_value_act (Action.onValue_load .source) ((h.holds _).2
          (hvalue _ hvisit.unit_lt)), if_pos hlane]
        show m'.read (frame.cell _ .source) = _
        rw [hreach.cell_eq (by rw [hitem]; exact hi), hitem, h.items i hi, if_neg hbefore]
      have hcarry : loaded.read (.carry (i - t * frame.cubeDim)) =
          m.read (.carry (i % frame.cubeDim)) := by
        rw [Instr.read_act_of_onValue (Action.onValue_load .source) (by simp),
          h.others _ (by simp) (by simp [Frame.place]), hvisit.div_mod.2]
      rw [if_pos hvisit, if_pos hvisit.lt_succ_mul, Instr.read_value_act
        Action.onValue_prependCarry ((hheld _).2 (hvalue _ hvisit.unit_lt)), if_pos hlane]
      show op.combine (loaded.read _) (loaded.read _) = _
      rw [hcarry, hloaded]
    · rw [if_neg hvisit, hprepended _ (frame.place_ne_value i .source), h.items i hi]
      simp only [Frame.lt_succ_mul_iff hvisit]
  · intro cell hcell hplace
    rw [Instr.read_store_of_ne hreach hplace, hprepended cell hcell]
    exact h.others cell hcell hplace

section Carry

variable {m : Memory α}

theorem Instr.run_fetchCarry : Instr.fetchCarry.run op frame m = Move.applyAll op m
    ((List.range frame.cubeDim).map fun unit =>
      ⟨.carry unit, .copy (.total frame.position.toNat)⟩) := by
  rw [Instr.run, applyAll_flatMap, ← Frame.flatMap_units, List.map_flatMap]
  rfl

theorem Instr.read_fetchCarry {unit : Nat} (hunit : unit < frame.cubeDim)
    (hheld : m.Holds (.carry unit)) :
    (Instr.fetchCarry.run op frame m).read (.carry unit) =
      m.read (.total frame.position.toNat) := by
  have hmem : (⟨.carry unit, .copy (.total frame.position.toNat)⟩ : Move) ∈
      (List.range frame.cubeDim).map fun unit =>
        (⟨.carry unit, .copy (.total frame.position.toNat)⟩ : Move) :=
    List.mem_map.2 ⟨unit, List.mem_range.2 hunit, rfl⟩
  rw [run_fetchCarry]
  refine Move.read_applyAll_of_mem ?_ hmem hheld
  rw [List.pairwise_map]
  refine List.nodup_range.imp ?_
  intro u v hne
  simp [Move.Apart, Move.reads, Operand.reads, hne]

theorem Instr.read_fetchCarry_of_ne {cell : Cell} (hcell : ∀ unit, cell ≠ .carry unit) :
    (Instr.fetchCarry.run op frame m).read cell = m.read cell := by
  rw [run_fetchCarry]
  apply Move.read_applyAll_of_ne
  intro move hmove
  obtain ⟨unit, _, rfl⟩ := List.mem_map.1 hmove
  exact (hcell unit).symm

end Carry

/-- The buffers after a cube expanded its block. -/
structure Expanded (op : Operator α) (frame : Frame) (buffers after : Buffers α) : Prop where
  sourceSize : after.source.size = buffers.source.size
  totalsSize : after.totals.size = buffers.totals.size
  block : ∀ i < frame.granularity, after.source.getD (frame.offset.toNat + i) default =
    op.combine (buffers.totals.getD frame.position.toNat default)
      (buffers.source.getD (frame.offset.toNat + i) default)
  outside : ∀ i, i < frame.offset.toNat ∨ frame.offset.toNat + frame.granularity ≤ i →
    after.source.getD i default = buffers.source.getD i default
  totals : ∀ k, after.totals.getD k default = buffers.totals.getD k default

theorem Program.expand_run {buffers : Buffers α}
    (hfit : frame.granularity + frame.cubeDim ≤ 2 ^ 32)
    (hword : frame.offset.toNat + frame.granularity ≤ 2 ^ 32)
    (hblock : frame.offset.toNat + frame.granularity ≤ buffers.source.size) :
    Expanded op frame buffers ((Program.expand frame.settings).run op frame fill buffers) := by
  let program := Program.expand frame.settings
  let m := program.enter frame.cubeDim fill buffers.source buffers.totals
  let fetched := Instr.run op frame m .fetchCarry
  let iterations := (Partition.mk frame.settings.granularity frame.settings.cubeDim).runtimeIterations
  let after := runCode op frame fetched (Program.unroll iterations fun t => [
    .act t frame.settings.granularity (.load .source),
    .act t frame.settings.granularity .prependCarry,
    .act t frame.settings.granularity (.store .source)])
  have hiterations : iterations.toNat =
      (frame.granularity + frame.cubeDim - 1) / frame.cubeDim :=
    Partition.toNat_runtimeIterations hfit frame.cubeDim_pos
  have hroom : program.Fits frame m .source 0 frame.granularity :=
    program.fits_enter buffers hblock
  have hholds : ∀ cell, fetched.Holds cell ↔ m.Holds cell := Instr.holds_run _ m
  have hexpanded : ExpandedTo op frame fetched iterations.toNat after := by
    apply runCode_unroll
    · exact ⟨fun _ => Iff.rfl, fun i _ => by simp, fun _ _ _ => rfl⟩
    · intro t ht m' hm'
      have hexact := (frame.unwrapped_of_fits hfit).exact (hiterations ▸ ht)
      exact hm'.step hexact hword (fun unit hunit => (hholds _).2 (hroom.value unit hunit))
        fun i hi => (hholds _).2 (hroom.items i hi)
  have hcarry : ∀ unit < frame.cubeDim,
      fetched.read (.carry unit) = buffers.totals.getD frame.position.toNat default := by
    intro unit hunit
    have hheld : m.Holds (.carry unit) := by simpa [Memory.Holds, m, Program.enter] using hunit
    exact Instr.read_fetchCarry hunit hheld
  have hfetched : ∀ cell, (∀ unit, cell ≠ .carry unit) → fetched.read cell = m.read cell :=
    fun cell hcell => Instr.read_fetchCarry_of_ne hcell
  have hbound : frame.granularity ≤ iterations.toNat * frame.cubeDim :=
    hiterations ▸ le_ceil_mul frame.cubeDim_pos
  show Expanded op frame buffers ⟨after.source, after.totals⟩
  refine ⟨?_, ?_, ?_, ?_, ?_⟩
  · exact eq_of_forall_lt_iff fun i => (hexpanded.holds (.source i)).trans (hholds _)
  · exact eq_of_forall_lt_iff fun k => (hexpanded.holds (.total k)).trans (hholds _)
  · intro i hi
    have hitem := hexpanded.items i hi
    rw [if_pos (by omega), hcarry _ (Nat.mod_lt i frame.cubeDim_pos),
      hfetched _ (by simp [Frame.place])] at hitem
    exact hitem
  · intro i hi
    exact (hexpanded.others (.source i) (by simp) (by simp [Frame.place]; omega)).trans
      (hfetched _ (by simp))
  · intro k
    exact (hexpanded.others (.total k) (by simp) (by simp [Frame.place])).trans
      (hfetched _ (by simp))

end PrefixScan.Cube
