import PrefixScan.Proofs.Submission
import PrefixScan.Proofs.Cube.Kernel
import PrefixScan.Scan

/-!
# Scans by a single cube

A launch of one cube runs its program once, on the slice of the data that starts at its offset.  A cube
scan then leaves each item of its range with the combination of the items up to it, for every range, every
operation and every padding value, and leaves the rest of the data alone.  A scan by planes does the same
for each chunk of the range on its own.

## Main definitions

* `Scan.SliceScanned` — data of which a slice was scanned.
* `Scan.foldFrom` — elements in a row, combined from the left.

## Main results

* `Scan.single_eq` — the launch of a single cube, and the data after it.
* `Scan.direct_combines_prefixes` — the scan of a range by a cube.
* `Scan.direct_scans_chunks` — the scan of a range by planes.
-/

namespace PrefixScan.Scan

open PrefixScan.Cube Bracketing

variable {α : Type} [Inhabited α] {op : Operator α} {fill : α} {settings : Settings}

/-- The data after a scan of `range` elements from `start` on: item `i` of the slice is `value i`, and all
other elements are as they were. -/
structure SliceScanned (data : Array α) (start range : Nat) (value : Nat → α) (after : Array α) :
    Prop where
  size : after.size = data.size
  items : ∀ i < range, after.getD (start + i) default = value i
  outside : ∀ i, i < start ∨ start + range ≤ i → after.getD i default = data.getD i default

/-- A single cube is launched once, and runs on the slice that starts at its offset. -/
theorem single_eq (kernel : Kernel) (program : Program) (offset : Index) (data : Array α) :
    single op fill kernel settings program offset data =
      ⟨[.launch ⟨kernel, 1, settings.cubeDim, program.shared⟩],
        .ok (program.run op ⟨settings, 0, offset⟩ fill ⟨data, #[]⟩).source⟩ := rfl

/-- A program that scans a range of the source scans a slice of it, unless its iterations wrap. -/
theorem sliceScanned_of_unwrapped {frame : Frame} {range : Index} {program : Program}
    (hprogram : Program.cubeScan frame.settings .source 0 range = .ok program)
    (hwords : frame.Unwrapped range.toNat)
    (hword : frame.offset.toNat + range.toNat ≤ 2 ^ 32) {buffers : Buffers α}
    (hsize : frame.offset.toNat + range.toNat ≤ buffers.source.size) :
    SliceScanned buffers.source frame.offset.toNat range.toNat
      (fun i => (ofCube frame.planeDim i).eval op.combine fun j =>
        buffers.source.getD (frame.offset.toNat + j) default)
      (program.run op frame fill buffers).source := by
  let m := program.enter frame.cubeDim fill buffers.source buffers.totals
  have hscanned : CubeScanned op frame m .source 0 range.toNat (runCode op frame m program.code) :=
    cubeScan_run (show Region.Below 0 .source from trivial) hprogram hwords hword
      (Program.fits_enter program buffers hsize)
  refine ⟨?_, ?_, ?_⟩
  · exact eq_of_forall_lt_iff fun i => hscanned.holds (.source i)
  · exact hscanned.items
  · intro i hi
    exact hscanned.others (.source i) (by simp) (by simp) (by simp) (by simp [Frame.place]; omega)

theorem sliceScanned_of_cubeScan {frame : Frame} {range : Index} {program : Program}
    (hprogram : Program.cubeScan frame.settings .source 0 range = .ok program)
    (hfit : range.toNat + frame.cubeDim ≤ 2 ^ 32)
    (hword : frame.offset.toNat + range.toNat ≤ 2 ^ 32) {buffers : Buffers α}
    (hsize : frame.offset.toNat + range.toNat ≤ buffers.source.size) :
    SliceScanned buffers.source frame.offset.toNat range.toNat
      (fun i => (ofCube frame.planeDim i).eval op.combine fun j =>
        buffers.source.getD (frame.offset.toNat + j) default)
      (program.run op frame fill buffers).source :=
  sliceScanned_of_unwrapped hprogram (frame.unwrapped_of_fits hfit) hword hsize

/-- A scan of a range by one cube succeeds, whatever the operation and the padding value, and whether or not
planes or the cube divide the range.  Item `i` of the range ends up with the value of a bracketing of the
items `0..i`, each once and in order, which has no place for padding; so it is the running fold for an
operation that is associative.  No other element changes.  32-bit positions have to reach the slice, which
they do if it starts at element 0. -/
theorem direct_combines_prefixes (op : Operator α) (fill : α) (settings : Settings)
    {start range : Index} {data : Array α}
    (hfit : range.toNat + settings.cubeDim.toNat ≤ 2 ^ 32)
    (hword : start.toNat + range.toNat ≤ 2 ^ 32)
    (hdata : start.toNat + range.toNat ≤ data.size) :
    ∃ after, (direct op fill settings .cube start range data).result = .ok after ∧
      SliceScanned data start.toNat range.toNat
        (fun i => (ofCube settings.planeDim.toNat i).eval op.combine fun j =>
          data.getD (start.toNat + j) default) after ∧
      (∀ i, (ofCube settings.planeDim.toNat i).items = List.range (i + 1)) ∧
      ((∀ a b c, op.combine (op.combine a b) c = op.combine a (op.combine b c)) →
        ∀ i < range.toNat, after.getD (start.toNat + i) default =
          (List.range' 1 i).foldl (fun acc j => op.combine acc (data.getD (start.toNat + j) default))
            (data.getD start.toNat default)) := by
  obtain ⟨program, hprogram⟩ := Program.cubeScan_isOk settings .source 0
    (Settings.pads_of_fits hfit)
  have hscanned := @sliceScanned_of_cubeScan α _ op fill ⟨settings, 0, start⟩ range program hprogram
    hfit hword ⟨data, #[]⟩ hdata
  have hitems := items_ofCube settings.planeDim_pos
  refine ⟨_, ?_, hscanned, hitems, ?_⟩
  · rw [direct, hprogram]
    exact congrArg Submission.result (single_eq _ _ _ _)
  · intro hassoc i hi
    have hsplit : (ofCube settings.planeDim.toNat i).items = 0 :: List.range' 1 i := by
      rw [hitems, List.range_eq_range', List.range'_succ]
    exact (hscanned.items i hi).trans (eval_eq_foldl hassoc _ hsplit)

/-- Running sums of five numbers in the middle of seven, two units to a plane, with padding that is not
neutral. -/
theorem direct_combines_prefixes_five :
    ∃ settings after, Settings.ofConfig { granularity := 2, cubeDim := 4 } 2 = .ok settings ∧
      (5 : Index).toNat + settings.cubeDim.toNat ≤ 2 ^ 32 ∧
      (direct ⟨9, (· + ·)⟩ 7 settings .cube 1 5 (#[1, 2, 3, 4, 5, 6, 7] : Array (BitVec 32))).result =
        .ok after ∧
      after.getD 0 default = 1 ∧ after.getD 5 default = 20 ∧ after.getD 6 default = 7 := by
  obtain ⟨settings, hsettings⟩ : ∃ settings,
      Settings.ofConfig { granularity := 2, cubeDim := 4 } 2 = .ok settings := ⟨_, rfl⟩
  have hfit : (5 : Index).toNat + settings.cubeDim.toNat ≤ 2 ^ 32 := by
    cases hsettings
    decide
  obtain ⟨after, hresult, hscanned, _, hfold⟩ := @direct_combines_prefixes (BitVec 32) _
    ⟨9, (· + ·)⟩ 7 settings 1 5 #[1, 2, 3, 4, 5, 6, 7] hfit (by decide) (by decide)
  refine ⟨settings, after, hsettings, hfit, hresult, ?_, ?_, ?_⟩
  · exact hscanned.outside 0 (by decide)
  · exact hfold BitVec.add_assoc 4 (by decide)
  · exact hscanned.outside 6 (by decide)

/-! ## Scans by planes -/

/-- A program that scans the chunks of a range of the source leaves each item of the slice with the chain of
the items of its chunk. -/
theorem sliceScanned_of_planeScan {frame : Frame} {range : Index} {program : Program}
    (hprogram : Program.planeScan frame.settings .source range = .ok program)
    (hfit : range.toNat + frame.cubeDim ≤ 2 ^ 32)
    (hword : frame.offset.toNat + range.toNat ≤ 2 ^ 32) {buffers : Buffers α}
    (hsize : frame.offset.toNat + range.toNat ≤ buffers.source.size) :
    SliceScanned buffers.source frame.offset.toNat range.toNat
      (fun i => (chain (i % frame.planeDim)).eval op.combine fun j =>
        buffers.source.getD (frame.offset.toNat + (i / frame.planeDim * frame.planeDim + j)) default)
      (program.run op frame fill buffers).source := by
  let m := program.enter frame.cubeDim fill buffers.source buffers.totals
  have hroom : program.Fits frame m .source 0 range.toNat := Program.fits_enter program buffers hsize
  have hall : range.toNat ≤ (range.toNat + frame.cubeDim - 1) / frame.cubeDim * frame.cubeDim :=
    le_ceil_mul frame.cubeDim_pos
  have hscanned : PlaneScannedTo op frame m .source range.toNat
      ((range.toNat + frame.cubeDim - 1) / frame.cubeDim) (runCode op frame m program.code) :=
    planeScan_run hprogram (Settings.pads_of_fits hfit) (frame.unwrapped_of_fits hfit) hword
      hroom.value hroom.items
  refine ⟨?_, ?_, ?_⟩
  · exact eq_of_forall_lt_iff fun i => hscanned.holds (.source i)
  · intro i hi
    exact (hscanned.items i hi).trans (if_pos (Nat.lt_of_lt_of_le hi hall))
  · intro i hi
    exact hscanned.others (.source i) (by simp) (by simp [Frame.place]; omega)

/-- The element at `first` and the `count` elements after it, combined from the left. -/
def foldFrom (op : Operator α) (data : Array α) (first count : Nat) : α :=
  (List.range' 1 count).foldl (fun acc j => op.combine acc (data.getD (first + j) default))
    (data.getD first default)

theorem foldFrom_eq_eval (data : Array α) (start first count : Nat) :
    foldFrom op data (start + first) count =
      (chain count).eval op.combine fun j => data.getD (start + (first + j)) default := by
  rw [eval_chain, foldFrom]
  simp only [Nat.add_assoc, Nat.add_zero]

/-- A scan of a range by the planes of a cube, each on its own, succeeds, whatever the operation and the
padding value.  Every chunk of as many items as a plane has units is scanned from its first item on, also
where the range is longer than a plane or than the cube and ends in the middle of a chunk: each item ends up
with the left fold of the items of its chunk up to it.  No other element changes.  A range that fits a plane
is one chunk, so it is scanned as a whole. -/
theorem direct_scans_chunks (op : Operator α) (fill : α) (settings : Settings)
    {start range : Index} {data : Array α}
    (hfit : range.toNat + settings.cubeDim.toNat ≤ 2 ^ 32)
    (hword : start.toNat + range.toNat ≤ 2 ^ 32)
    (hdata : start.toNat + range.toNat ≤ data.size) :
    ∃ after, (direct op fill settings .plane start range data).result = .ok after ∧
      SliceScanned data start.toNat range.toNat
        (fun i => foldFrom op data
          (start.toNat + i / settings.planeDim.toNat * settings.planeDim.toNat)
          (i % settings.planeDim.toNat)) after ∧
      (range ≤ settings.planeDim → SliceScanned data start.toNat range.toNat
        (fun i => foldFrom op data start.toNat i) after) := by
  obtain ⟨_, _, hprogram, _⟩ :=
    Program.planeScan_eq settings .source (Settings.pads_of_fits hfit)
  have hscanned := @sliceScanned_of_planeScan α _ op fill ⟨settings, 0, start⟩ range _ hprogram hfit
    hword ⟨data, #[]⟩ hdata
  have hchunks : SliceScanned data start.toNat range.toNat
      (fun i => foldFrom op data
        (start.toNat + i / settings.planeDim.toNat * settings.planeDim.toNat)
        (i % settings.planeDim.toNat)) _ :=
    { hscanned with
      items := fun i hi => (hscanned.items i hi).trans (foldFrom_eq_eval data _ _ _).symm }
  refine ⟨_, ?_, hchunks, ?_⟩
  · rw [direct, hprogram]
    exact congrArg Submission.result (single_eq _ _ _ _)
  · intro hplane
    refine { hchunks with items := fun i hi => ?_ }
    have hlt : i < settings.planeDim.toNat := Nat.lt_of_lt_of_le hi (BitVec.le_def.1 hplane)
    have hitem := hchunks.items i hi
    rwa [Nat.div_eq_of_lt hlt, Nat.mod_eq_of_lt hlt, Nat.zero_mul, Nat.add_zero] at hitem

/-- Seven numbers, behind one that is not scanned, by a plane of four units in two iterations, with the
difference for an operation: the second chunk starts anew, and its padding shows nowhere. -/
theorem direct_scans_chunks_seven :
    ∃ settings after, Settings.ofConfig { granularity := 4, cubeDim := 4 } 4 = .ok settings ∧
      (7 : Index).toNat + settings.cubeDim.toNat ≤ 2 ^ 32 ∧
      (direct ⟨9, (· - ·)⟩ 7 settings .plane 1 7 (#[1, 2, 3, 4, 5, 6, 7, 8, 9] : Array Int)).result =
        .ok after ∧
      after.getD 0 default = 1 ∧ after.getD 4 default = 2 - 3 - 4 - 5 ∧
      after.getD 5 default = 6 ∧ after.getD 7 default = 6 - 7 - 8 ∧ after.getD 8 default = 9 := by
  obtain ⟨settings, hsettings⟩ : ∃ settings,
      Settings.ofConfig { granularity := 4, cubeDim := 4 } 4 = .ok settings := ⟨_, rfl⟩
  have hplane : settings.planeDim = 4 := by
    cases hsettings
    rfl
  have hfit : (7 : Index).toNat + settings.cubeDim.toNat ≤ 2 ^ 32 := by
    cases hsettings
    decide
  obtain ⟨after, hresult, hchunks, _⟩ := @direct_scans_chunks Int _ ⟨9, (· - ·)⟩ 7 settings 1 7
    #[1, 2, 3, 4, 5, 6, 7, 8, 9] hfit (by decide) (by decide)
  rw [hplane] at hchunks
  refine ⟨settings, after, hsettings, hfit, hresult, ?_, ?_, ?_, ?_, ?_⟩
  · exact hchunks.outside 0 (by decide)
  · exact hchunks.items 3 (by decide)
  · exact hchunks.items 4 (by decide)
  · exact hchunks.items 6 (by decide)
  · exact hchunks.outside 8 (by decide)

end PrefixScan.Scan
