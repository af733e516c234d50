import PrefixScan.Proofs.Cube.Chunks

/-!
# Cube scans

A cube scan leaves each item of its range with the value of one bracketing of the items up to it,
`Bracketing.ofCube`, whatever the operation, the padding value and the contents of fresh memory.  The
proof follows the recursion over levels: the chunk totals of a level are the items of the next one.
The total of the last chunk may have padding in it, but it is the last item of every level above, and
no item of the range is behind it.

## Main results

* `Program.cubeScan_scanCode` — the expansion of a cube scan does not fault, and what it gives.
* `Program.cubeScan_shared` — the shared memories that it asks for.
* `cubeScan_run` — what a cube scan does to memory.
-/

namespace PrefixScan.Cube

open Bracketing

/-! ## Expansion -/

/-- The code of a scan that does not fit a plane, in terms of the scan of its chunk totals. -/
theorem Program.cubeScan_eq (settings : Settings) (region : Region) (level : Nat) {range : Index}
    (hchunks : settings.planeDim < range) (hpads : settings.Pads range) :
    ∃ padded chunks iterations : Index,
      padded.toNat = (range.toNat + settings.planeDim.toNat - 1) / settings.planeDim.toNat *
        settings.planeDim.toNat ∧
      chunks.toNat = (range.toNat + settings.planeDim.toNat - 1) / settings.planeDim.toNat ∧
      iterations.toNat =
        (range.toNat + settings.cubeDim.toNat - 1) / settings.cubeDim.toNat ∧
      Program.cubeScan settings region level range =
        (Program.cubeScan settings (.shared level) (level + 1) chunks).map fun inner =>
          { code := chunkPhase region level range padded iterations ++
              .barrier :: inner.code ++
              .barrier :: foldPhase region level range iterations
            shared := chunks :: inner.shared
            kept := iterations :: inner.kept } := by
  obtain ⟨padded, hround, hpadded⟩ := hpads
  obtain ⟨chunks, hquot, hcount⟩ := Word.ceilDiv_isOk range settings.planeDim_pos
  obtain ⟨iterations, hloop, hiterations⟩ := numIterations_padded settings hpadded
  obtain ⟨writes, hwrite, hwrites⟩ := Word.ceilDiv_isOk range settings.cubeDim_pos
  have hwrite' : (Partition.mk range settings.cubeDim).numIterations = .ok writes := hwrite
  obtain rfl : writes = iterations := BitVec.eq_of_toNat_eq (hwrites.trans hiterations.symm)
  refine ⟨padded, chunks, writes, hpadded, hcount, hiterations, ?_⟩
  rw [Program.cubeScan, dif_neg (BitVec.not_le.2 hchunks)]
  simp only [hround]
  split
  · rename_i fault hfault
    rw [hquot] at hfault
    cases hfault
  · rename_i chunks' hquot'
    rw [hquot] at hquot'
    cases hquot'
    simp only [hloop, hwrite']
    cases Program.cubeScan settings (.shared level) (level + 1) chunks <;> rfl

/-- The code of a scan of `range` items of a region by a cube, from a recursion level on, with what the
numbers in it are: a plane scan, or the scan of the chunk totals between two phases. -/
inductive ScanCode (settings : Settings) : Region → Nat → Index → List Instr → Prop
  | plane {region : Region} {level : Nat} {range padded iterations : Index}
      (hpadded : padded.toNat = (range.toNat + settings.planeDim.toNat - 1) /
        settings.planeDim.toNat * settings.planeDim.toNat)
      (hiterations : iterations.toNat =
        (range.toNat + settings.cubeDim.toNat - 1) / settings.cubeDim.toNat) :
      ScanCode settings region level range <| Program.unroll iterations fun t =>
        chunkCode region t range padded ++ [.act t range (.store region)]
  | chunks {region : Region} {level : Nat} {range padded chunks iterations : Index}
      {inner : List Instr} (hless : chunks.toNat < range.toNat)
      (hpadded : padded.toNat = (range.toNat + settings.planeDim.toNat - 1) /
        settings.planeDim.toNat * settings.planeDim.toNat)
      (hchunks : chunks.toNat =
        (range.toNat + settings.planeDim.toNat - 1) / settings.planeDim.toNat)
      (hiterations : iterations.toNat =
        (range.toNat + settings.cubeDim.toNat - 1) / settings.cubeDim.toNat)
      (hinner : ScanCode settings (.shared level) (level + 1) chunks inner) :
      ScanCode settings region level range <|
        Program.chunkPhase region level range padded iterations ++ .barrier :: inner ++
          .barrier :: Program.foldPhase region level range iterations

/-- The expansion of a cube scan does not fault. -/
theorem Program.cubeScan_scanCode (settings : Settings) (region : Region) (level : Nat)
    {range : Index} (hpads : settings.Pads range) :
    ∃ program, Program.cubeScan settings region level range = .ok program ∧
      ScanCode settings region level range program.code := by
  induction hsize : range.toNat using Nat.strong_induction_on generalizing region level range with
  | _ size ih =>
      by_cases hplane : range ≤ settings.planeDim
      · obtain ⟨padded, iterations, hcode, hpadded, hiterations⟩ :=
          Program.planeScan_eq settings region hpads
        rw [Program.cubeScan, dif_pos hplane]
        exact ⟨_, hcode, .plane hpadded hiterations⟩
      · have hlt := BitVec.not_le.1 hplane
        obtain ⟨padded, chunks, iterations, hpadded, hcount, hiterations, heq⟩ :=
          Program.cubeScan_eq settings region level hlt hpads
        have htwo := settings.two_le_planeDim
        have hlong := BitVec.lt_def.1 hlt
        have hless : chunks.toNat < range.toNat := by
          rw [hcount, ← Word.toNat_ceilQuot _ _ (by omega)]
          exact Word.ceilQuot_lt (by omega) htwo
        obtain ⟨inner, hinner, hcode⟩ := ih chunks.toNat (by omega) (.shared level) (level + 1)
          (Settings.pads_of_chunks hcount) rfl
        exact ⟨_, by rw [heq, hinner]; rfl, .chunks hless hpadded hcount hiterations hcode⟩

/-- The expansion faults if the range cannot be padded. -/
theorem Program.cubeScan_of_roundUp_error (settings : Settings) (region : Region) (level : Nat)
    {range : Index} {fault : Fault} (hfault : Word.roundUp range settings.planeDim = .error fault) :
    Program.cubeScan settings region level range = .error fault := by
  rw [Program.cubeScan]
  split
  · rw [Program.planeScan, hfault]
    rfl
  · simp only [hfault]

theorem Program.pads_of_cubeScan {settings : Settings} {region : Region} {level : Nat}
    {range : Index} {program : Program}
    (h : Program.cubeScan settings region level range = .ok program) : settings.Pads range := by
  cases hround : Word.roundUp range settings.planeDim with
  | error fault =>
      rw [Program.cubeScan_of_roundUp_error settings region level hround] at h
      cases h
  | ok padded => exact ⟨padded, hround, Word.roundUp_eq_ok settings.planeDim_pos hround⟩

theorem ScanCode.of_cubeScan {settings : Settings} {region : Region} {level : Nat} {range : Index}
    {program : Program} (h : Program.cubeScan settings region level range = .ok program)
    (hpads : settings.Pads range) : ScanCode settings region level range program.code := by
  obtain ⟨scan, hscan, hcode⟩ := Program.cubeScan_scanCode settings region level hpads
  rw [hscan] at h
  cases h
  exact hcode

theorem Program.cubeScan_isOk (settings : Settings) (region : Region) (level : Nat) {range : Index}
    (hpads : settings.Pads range) :
    ∃ program, Program.cubeScan settings region level range = .ok program := by
  obtain ⟨program, hprogram, _⟩ := cubeScan_scanCode settings region level hpads
  exact ⟨program, hprogram⟩

/-- The shared memories of a cube scan are the scratch memories announced for its range. -/
theorem Program.cubeScan_shared {settings : Settings} {region : Region} {level : Nat} {range : Index}
    (hpads : settings.Pads range) {program : Program}
    (h : Program.cubeScan settings region level range = .ok program) :
    program.shared = Scratch.levelsOf settings.planeDim range := by
  have htwo := settings.two_le_planeDim
  induction hsize : range.toNat using Nat.strong_induction_on
    generalizing region level range program with
  | _ size ih =>
      subst hsize
      rw [Scratch.levelsOf]
      by_cases hplane : range ≤ settings.planeDim
      · obtain ⟨padded, iterations, hcode, _⟩ := Program.planeScan_eq settings region hpads
        rw [Program.cubeScan, dif_pos hplane, hcode] at h
        cases h
        rw [dif_neg fun hlong => BitVec.not_lt.2 hplane hlong.1]
        rfl
      · have hlong := BitVec.not_le.1 hplane
        have hone : 1 < settings.planeDim := BitVec.lt_def.2 htwo
        obtain ⟨_, chunks, _, _, hcount, _, heq⟩ := Program.cubeScan_eq settings region level hlong hpads
        obtain rfl : chunks = Word.ceilQuot range settings.planeDim :=
          BitVec.eq_of_toNat_eq (hcount.trans (Word.toNat_ceilQuot _ _ (by omega)).symm)
        have hless := Word.ceilQuot_lt (Nat.lt_of_le_of_lt (by omega) (BitVec.lt_def.1 hlong)) htwo
        obtain ⟨inner, hinner⟩ := Program.cubeScan_isOk settings (.shared level) (level + 1)
          (Settings.pads_of_chunks hcount)
        rw [heq, hinner] at h
        cases h
        rw [dif_pos ⟨hlong, hone⟩]
        exact congrArg _ (ih _ hless (Settings.pads_of_chunks hcount) hinner rfl)

/-! ## Execution -/

variable {α : Type} [Inhabited α] {op : Operator α} {frame : Frame} {m : Memory α}

theorem Instr.run_barrier : Instr.barrier.run op frame m = m := by
  rw [Instr.run, applyAll_flatMap]
  have hnone : (List.range frame.numPlanes).flatMap (Instr.barrier.moves frame) = [] :=
    List.flatMap_eq_nil_iff.2 fun _ _ => rfl
  rw [hnone]
  rfl

theorem runCode_barrier (code : List Instr) :
    runCode op frame m (.barrier :: code) = runCode op frame m code := by
  rw [runCode, List.foldl_cons, Instr.run_barrier]
  rfl

/-- The memory has room for a program that scans `range` items of a region from a recursion level
on: working values, the items, and the scratch memories that the program asks for. -/
structure Program.Fits (frame : Frame) (m : Memory α) (region : Region) (level range : Nat)
    (program : Program) : Prop where
  value : ∀ unit < frame.cubeDim, m.Holds (.value unit)
  items : ∀ i < range, m.Holds (frame.place i region)
  shared : ∀ k len, program.shared[k]? = some len →
    ∀ chunk < len.toNat, m.Holds (.shared (level + k) chunk)
  kept : ∀ k iterations, program.kept[k]? = some iterations →
    ∀ unit < frame.cubeDim, ∀ t < iterations.toNat, m.Holds (.kept (level + k) unit t)

omit [Inhabited α] in
/-- Room for a scan by chunks is room for the scan of the chunk totals. -/
theorem Program.Fits.inner {region : Region} {level range : Nat} {chunks iterations : Index}
    {code : List Instr} {inner : Program}
    (h : Program.Fits frame m region level range
      ⟨code, chunks :: inner.shared, iterations :: inner.kept⟩) {m' : Memory α}
    (hholds : ∀ cell, m'.Holds cell ↔ m.Holds cell) :
    inner.Fits frame m' (.shared level) (level + 1) chunks.toNat := by
  have hlevel : ∀ k, level + 1 + k = level + (k + 1) := by omega
  refine ⟨?_, ?_, ?_, ?_⟩
  · intro unit hunit
    exact (hholds _).2 (h.value unit hunit)
  · intro chunk hchunk
    exact (hholds _).2 (h.shared 0 chunks rfl chunk hchunk)
  · intro k len hlen chunk hchunk
    rw [hlevel]
    exact (hholds _).2 (h.shared (k + 1) len hlen chunk hchunk)
  · intro k count hcount unit hunit t ht
    rw [hlevel]
    exact (hholds _).2 (h.kept (k + 1) count hcount unit hunit t ht)

/-- The memory after a scan by a cube of `range` items of a region, from a recursion level on. -/
structure CubeScanned (op : Operator α) (frame : Frame) (m : Memory α) (region : Region)
    (level range : Nat) (m' : Memory α) : Prop where
  holds : ∀ cell, m'.Holds cell ↔ m.Holds cell
  items : ∀ i < range, m'.read (frame.place i region) =
    (ofCube frame.planeDim i).eval op.combine fun j => m.read (frame.place j region)
  others : ∀ cell, (∀ unit, cell ≠ .value unit) →
    (∀ level' unit t, level ≤ level' → cell ≠ .kept level' unit t) →
    (∀ level' chunk, level ≤ level' → cell ≠ .shared level' chunk) →
    (∀ i < range, cell ≠ frame.place i region) → m'.read cell = m.read cell

/-- A range that fits a plane is one chunk. -/
theorem PlaneScannedTo.cubeScanned {region : Region} {level range n : Nat} {m' : Memory α}
    (h : PlaneScannedTo op frame m region range n m') (hplane : range ≤ frame.planeDim)
    (hall : range ≤ n * frame.cubeDim) : CubeScanned op frame m region level range m' := by
  refine ⟨h.holds, ?_, fun cell hvalue _ _ hplace => h.others cell hvalue hplace⟩
  intro i hi
  have hlt : i < frame.planeDim := by omega
  have hchain : ofCube frame.planeDim i = chain i := blockwise_of_lt hlt
  rw [h.items i hi, if_pos (by omega), hchain, Nat.mod_eq_of_lt hlt, Nat.div_eq_of_lt hlt]
  simp only [Nat.zero_mul, Nat.zero_add]

/-- No padding is in the chain of an item of the range. -/
theorem Frame.chained_of_lt {region : Region} {range i : Nat} (hi : i < range) :
    frame.chained op m region range i =
      (chain (i % frame.planeDim)).eval op.combine fun j =>
        m.read (frame.place (i / frame.planeDim * frame.planeDim + j) region) := by
  apply eval_congr
  intro j hj
  have hsplit := Nat.div_add_mod' i frame.planeDim
  rw [items_chain, List.mem_range] at hj
  rw [Frame.items, if_pos (by omega)]

theorem Frame.lastOf_lt (frame : Frame) {chunk i : Nat} (h : chunk < i / frame.planeDim) :
    frame.lastOf chunk < i := by
  have hpos := frame.planeDim_pos
  have hle : (chunk + 1) * frame.planeDim ≤ i := (Nat.le_div_iff_mul_le hpos).1 h
  rw [Nat.succ_mul] at hle
  unfold lastOf
  omega

/-- The chunks of a padded range are those whose last item is in it. -/
theorem Frame.lt_of_lastOf_lt (frame : Frame) {chunk chunks : Nat}
    (h : frame.lastOf chunk < chunks * frame.planeDim) : chunk < chunks := by
  have hdiv := (Nat.div_lt_iff_lt_mul frame.planeDim_pos).2 h
  rwa [Frame.lastOf_div] at hdiv

/-- The three phases make a cube scan, given that the middle one scans the chunk totals. -/
theorem CubeScanned.of_phases {region : Region} {level range padded chunks n : Nat}
    (hall : range ≤ n * frame.cubeDim)
    (hpadded : padded = chunks * frame.planeDim) (hle : range ≤ padded)
    {m₁ m₂ m₃ : Memory α} (h₁ : ChunkedTo op frame m region level range padded n m₁)
    (h₂ : CubeScanned op frame m₁ (.shared level) (level + 1) chunks m₂)
    (h₃ : FoldedTo op frame m₂ region level range n m₃) :
    CubeScanned op frame m region level range m₃ := by
  have hpos := frame.planeDim_pos
  have hcube := frame.cubeDim_pos
  have hkept : ∀ i < range, m₂.read (.kept level (i % frame.cubeDim) (i / frame.cubeDim)) =
      (chain (i % frame.planeDim)).eval op.combine fun j =>
        m.read (frame.place (i / frame.planeDim * frame.planeDim + j) region) := by
    intro i hi
    have hitem := Nat.div_add_mod' i frame.cubeDim
    have hiteration : i / frame.cubeDim < n := (Nat.div_lt_iff_lt_mul hcube).2 (by omega)
    rw [h₂.others _ (by simp) (by simp; omega) (by simp) (by simp [Frame.place]),
      h₁.kept _ (Nat.mod_lt i hcube) _ hiteration (by omega), hitem, Frame.chained_of_lt hi]
  have htotal : ∀ i < range, ∀ chunk < i / frame.planeDim, m₁.read (.shared level chunk) =
      (chain (frame.planeDim - 1)).eval op.combine fun j =>
        m.read (frame.place (chunk * frame.planeDim + j) region) := by
    intro i hi chunk hchunk
    have hlast := frame.lastOf_lt hchunk
    rw [h₁.totals chunk (by omega) (by omega), Frame.chained_of_lt (by omega), Frame.lastOf_mod,
      Frame.lastOf_div]
  refine ⟨fun cell => (h₃.holds cell).trans ((h₂.holds cell).trans (h₁.holds cell)), ?_, ?_⟩
  · intro i hi
    rw [h₃.items i hi, if_pos (by omega), Frame.folded, hkept i hi]
    split
    · rename_i hlater
      have hone : 1 ≤ i / frame.planeDim := (Nat.one_le_div_iff hpos).2 hlater
      have hbound : i / frame.planeDim - 1 < chunks := by
        have hquot : i / frame.planeDim < chunks := (Nat.div_lt_iff_lt_mul hpos).2 (by omega)
        omega
      have hprev := h₂.items _ hbound
      simp only [Frame.place] at hprev
      rw [hprev, ofCube, eval_blockwise_of_le _ hpos hlater]
      congr 1
      -- the totals that precede the item are those of chunks before its own
      apply eval_congr
      intro chunk hchunk
      have hitems := items_ofCube hpos (i / frame.planeDim - 1)
      rw [ofCube] at hitems
      rw [hitems, List.mem_range] at hchunk
      exact htotal i hi chunk (by omega)
    · rename_i hfirst
      have hlt : i < frame.planeDim := by omega
      rw [ofCube, blockwise_of_lt hlt, Nat.mod_eq_of_lt hlt, Nat.div_eq_of_lt hlt]
      simp only [Nat.zero_mul, Nat.zero_add]
  · intro cell hvalue hcellKept hcellShared hplace
    rw [h₃.others cell hvalue hplace,
      h₂.others cell hvalue (fun level' unit t h => hcellKept level' unit t (by omega))
        (fun level' chunk h => hcellShared level' chunk (by omega))
        (fun chunk _ => hcellShared level chunk (Nat.le_refl _)),
      h₁.others cell hvalue (fun unit t => hcellKept level unit t (Nat.le_refl _))
        fun chunk => hcellShared level chunk (Nat.le_refl _)]

theorem cubeScan_run {region : Region} {level : Nat} (hbelow : region.Below level)
    {range : Index} {program : Program}
    (hprogram : Program.cubeScan frame.settings region level range = .ok program)
    (hwords : frame.Unwrapped range.toNat) (hreach : frame.Reaches range.toNat region)
    (hroom : program.Fits frame m region level range.toNat) :
    CubeScanned op frame m region level range.toNat (runCode op frame m program.code) := by
  have hpads := Program.pads_of_cubeScan hprogram
  have hall : range.toNat ≤ (range.toNat + frame.cubeDim - 1) / frame.cubeDim * frame.cubeDim :=
    le_ceil_mul frame.cubeDim_pos
  induction hsize : range.toNat using Nat.strong_induction_on
    generalizing region level range program m with
  | _ size ih =>
      subst hsize
      by_cases hplane : range ≤ frame.settings.planeDim
      · rw [Program.cubeScan, dif_pos hplane] at hprogram
        exact (planeScan_run hprogram hpads hwords hreach hroom.value hroom.items).cubeScanned
          (BitVec.le_def.1 hplane) hall
      · have hlt := BitVec.not_le.1 hplane
        have hlong := BitVec.lt_def.1 hlt
        have htwo := frame.settings.two_le_planeDim
        obtain ⟨padded, chunks, iterations, hpadded, hchunks, hiterations, hcode⟩ :=
          Program.cubeScan_eq frame.settings region level hlt hpads
        have hless : chunks.toNat < range.toNat := by
          rw [hchunks, ← Word.toNat_ceilQuot _ _ (by omega)]
          exact Word.ceilQuot_lt (by omega) htwo
        have hle : range.toNat ≤ padded.toNat := hpadded ▸ le_ceil_mul frame.planeDim_pos
        have hwhole : padded.toNat = chunks.toNat * frame.planeDim := by rw [hpadded, hchunks]
        obtain ⟨inner, hinner⟩ := Program.cubeScan_isOk frame.settings (.shared level) (level + 1)
          (Settings.pads_of_chunks hchunks)
        rw [hcode, hinner] at hprogram
        cases hprogram
        have hscratch : ∀ chunk < chunks.toNat, m.Holds (.shared level chunk) :=
          hroom.shared 0 chunks rfl
        have hphase₁ : ChunkedTo op frame m region level range.toNat padded.toNat iterations.toNat
            (runCode op frame m (Program.chunkPhase region level range padded iterations)) :=
          chunkPhase_run hbelow hwords hiterations hreach hroom.value
            (hroom.kept 0 iterations rfl)
            fun chunk h => hscratch chunk (frame.lt_of_lastOf_lt (hwhole ▸ h))
        have habove : Region.Below (level + 1) (.shared level) := Nat.lt_succ_self level
        have hphase₂ := ih chunks.toNat hless habove hinner (hwords.mono hless.le) trivial
          (hroom.inner hphase₁.holds) (Settings.pads_of_chunks hchunks)
          (le_ceil_mul frame.cubeDim_pos) rfl
        have hholds := fun cell => (hphase₂.holds cell).trans (hphase₁.holds cell)
        simp only [runCode_append, runCode_barrier]
        apply CubeScanned.of_phases (hiterations ▸ hall) hwhole hle hphase₁ hphase₂
        exact foldPhase_run hbelow hwords hiterations hreach
          (fun unit hunit => (hholds _).2 (hroom.value unit hunit))
          fun i hi => (hholds _).2 (hroom.items i hi)

end PrefixScan.Cube
