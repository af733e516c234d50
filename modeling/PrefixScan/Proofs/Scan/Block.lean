import PrefixScan.Proofs.Scan.Single
import PrefixScan.Proofs.Cube.Writes

/-!
# Block scans and their lengths

A block scan takes the length of a buffer, which is a 64-bit word, and expands a scan of what is left of the
length when it is cut to a position.  From there on it is the scan of that range by one cube: it faults if
the range cannot be padded to whole planes, and it is right if no iteration of the cube wraps.  So the whole
length is scanned exactly if it is a position itself and the slots of its iterations fit the word space.
Where it is not, nothing is reported.

## Main definitions

* `Scan.ScansFirst` — a cube scans the first elements of the data, and visits each once.

## Main results

* `Scan.block_elements` — the elements that the cube writes, in order.
* `Scan.block_scans_length_iff` — which lengths are scanned as a whole.
-/

namespace PrefixScan.Scan

open PrefixScan.Cube Bracketing

/-- Where the cube of a block scan runs. -/
def blockFrame (settings : Settings) : Frame := ⟨settings, 0, 0⟩

variable {α : Type} [Inhabited α]

/-- The cube of a block scan scans the first `length` elements of the data: it writes each of them once and
no other, and item `i` ends up with the value of a bracketing of the items `0..i`. -/
structure ScansFirst (op : Operator α) (settings : Settings) (program : Program) (data : Array α)
    (length : Nat) (after : Array α) : Prop where
  writes : ((program.targets (blockFrame settings)).filterMap Cell.source?).Perm (List.range length)
  scanned : SliceScanned data 0 length
    (fun i => (ofCube settings.planeDim.toNat i).eval op.combine fun j => data.getD j default) after

variable {op : Operator α} {fill : α} {settings : Settings}

/-- For an associative operation the bracketings are running folds. -/
theorem ScansFirst.eq_foldl {program : Program} {data after : Array α} {length i : Nat}
    (h : ScansFirst op settings program data length after)
    (hassoc : ∀ a b c, op.combine (op.combine a b) c = op.combine a (op.combine b c))
    (hi : i < length) :
    after.getD i default = (List.range' 1 i).foldl (fun acc j => op.combine acc (data.getD j default))
      (data.getD 0 default) := by
  have hitems : (ofCube settings.planeDim.toNat i).items = 0 :: List.range' 1 i := by
    rw [items_ofCube settings.planeDim_pos, List.range_eq_range', List.range'_succ]
  have hitem := h.scanned.items i hi
  rw [Nat.zero_add] at hitem
  exact hitem.trans (eval_eq_foldl hassoc _ hitems)

/-! ## The launch -/

/-- The result of a block scan is that of its program, if the expansion does not fault. -/
theorem block_result (length : Size) (data : Array α) :
    (block op fill settings length data).result =
      (Program.cubeScan settings .source 0 (length.setWidth 32)).map fun program =>
        (program.run op (blockFrame settings) fill ⟨data, #[]⟩).source := by
  obtain ⟨iterations, hiterations, _⟩ := Word.ceilDiv_isOk (length.setWidth 32) settings.cubeDim_pos
  have hcount : (Partition.mk (length.setWidth 32) settings.cubeDim).numIterations =
      .ok iterations := hiterations
  rw [block, hcount]
  cases Program.cubeScan settings .source 0 (length.setWidth 32) with
  | error fault => rfl
  | ok program => exact congrArg Submission.result (single_eq .block program 0 data)

theorem block_of_program {length : Size} {program : Program}
    (hprogram : Program.cubeScan settings .source 0 (length.setWidth 32) = .ok program)
    (data : Array α) :
    (block op fill settings length data).result =
      .ok (program.run op (blockFrame settings) fill ⟨data, #[]⟩).source := by
  rw [block_result, hprogram]
  rfl

section Range

variable {range : Index} {program : Program}
  (hprogram : Program.cubeScan settings .source 0 range = .ok program)
include hprogram

/-- The elements that the cube writes are those of the items that the host's count of iterations visits. -/
theorem block_elements : ∃ iterations : Index,
    iterations.toNat = (range.toNat + settings.cubeDim.toNat - 1) / settings.cubeDim.toNat ∧
      (program.targets (blockFrame settings)).filterMap Cell.source? =
        ((Partition.mk range settings.cubeDim).sweep iterations).map (·.item.toNat) := by
  obtain ⟨iterations, _, hcount⟩ := Word.ceilDiv_isOk range settings.cubeDim_pos
  have hcode : ScanCode (blockFrame settings).settings .source 0 range program.code :=
    ScanCode.of_cubeScan hprogram (Program.pads_of_cubeScan hprogram)
  refine ⟨iterations, hcount, ?_⟩
  rw [Program.targets, hcode.elements hcount]
  apply List.map_congr_left
  intro visit _
  exact congrArg BitVec.toNat (BitVec.zero_add visit.item)

/-- No element is written twice only if no iteration wraps. -/
theorem slots_of_nodup
    (h : ((program.targets (blockFrame settings)).filterMap Cell.source?).Nodup) :
    (range.toNat + settings.cubeDim.toNat - 1) / settings.cubeDim.toNat *
      settings.cubeDim.toNat ≤ 2 ^ 32 := by
  obtain ⟨iterations, hcount, helements⟩ := block_elements hprogram
  rw [helements] at h
  have hslots := (Partition.nodup_items_iff settings.cubeDim_pos hcount).1 h
  rwa [hcount] at hslots

/-- Elements behind the range are not written, whether iterations wrap or not. -/
theorem block_untouched (data : Array α) {i : Nat} (hi : range.toNat ≤ i) :
    (program.run op (blockFrame settings) fill ⟨data, #[]⟩).source.getD i default =
      data.getD i default := by
  apply Program.source_of_notMem
  obtain ⟨iterations, _, helements⟩ := block_elements hprogram
  rw [helements]
  intro hmem
  have hlt : i < range.toNat := Partition.lt_of_mem_sweep_items settings.cubeDim_pos hmem
  omega

variable (hslots : (range.toNat + settings.cubeDim.toNat - 1) / settings.cubeDim.toNat *
  settings.cubeDim.toNat ≤ 2 ^ 32)
include hslots

/-- If no iteration wraps, the range is scanned. -/
theorem scansFirst_range {data : Array α} (hdata : range.toNat ≤ data.size) :
    ScansFirst op settings program data range.toNat
      (program.run op (blockFrame settings) fill ⟨data, #[]⟩).source := by
  obtain ⟨iterations, hcount, helements⟩ := block_elements hprogram
  have hwords : (blockFrame settings).Unwrapped range.toNat := Frame.unwrapped_of_slots _ hslots
  have hsize : 0 + range.toNat ≤ data.size := by omega
  have hlt := range.isLt
  have hwhole : 0 + range.toNat ≤ 2 ^ 32 := by omega
  constructor
  · rw [helements, Partition.sweep_eq_due settings.cubeDim_pos (hcount ▸ le_ceil_mul settings.cubeDim_pos)
      (hcount ▸ hslots), Partition.due_items]
  · have hslice := @sliceScanned_of_unwrapped α _ op fill (blockFrame settings) range program hprogram
      hwords hwhole ⟨data, #[]⟩ hsize
    have hstart : ∀ j, (blockFrame settings).offset.toNat + j = j := Nat.zero_add
    simp only [hstart] at hslice
    exact hslice

omit hslots

/-- The first elements are scanned, and each is visited once, only if they are the range and no iteration
wraps. -/
theorem of_scansFirst {data after : Array α} {length : Nat}
    (hrange : range.toNat = length % 2 ^ 32)
    (h : ScansFirst op settings program data length after) :
    length < 2 ^ 32 ∧ (length + settings.cubeDim.toNat - 1) / settings.cubeDim.toNat *
      settings.cubeDim.toNat ≤ 2 ^ 32 := by
  have hword : length < 2 ^ 32 := by
    by_contra hlong
    -- what is written is in the range, and the last element is not
    obtain ⟨iterations, _, helements⟩ := block_elements hprogram
    have hwritten := h.writes.mem_iff.2 (List.mem_range.2 (show length - 1 < length by omega))
    rw [helements] at hwritten
    have hlast : length - 1 < range.toNat :=
      Partition.lt_of_mem_sweep_items settings.cubeDim_pos hwritten
    omega
  have hsame : range.toNat = length := hrange.trans (Nat.mod_eq_of_lt hword)
  have hslots := slots_of_nodup hprogram (h.writes.nodup_iff.2 List.nodup_range)
  rw [hsame] at hslots
  exact ⟨hword, hslots⟩

end Range

/-! ## Lengths -/

/-- A block scan faults if the range that its length is cut to cannot be padded to whole planes, and
succeeds otherwise.  It leaves everything behind that range alone.  It scans the range, each element once, if
no iteration of the cube wraps; and it scans its whole length, each element once, if and only if the length
is a position and no iteration wraps. -/
theorem block_scans_length_iff (op : Operator α) (fill : α) (settings : Settings) {length : Size}
    {data : Array α} (hdata : length.toNat ≤ data.size) :
    (2 ^ 32 ≤ (length.toNat % 2 ^ 32) ⌈/⌉ settings.planeDim.toNat * settings.planeDim.toNat →
      (block op fill settings length data).result = .error .addOverflow) ∧
    ((length.toNat % 2 ^ 32) ⌈/⌉ settings.planeDim.toNat * settings.planeDim.toNat < 2 ^ 32 →
      ∃ program after,
        Program.cubeScan settings .source 0 (length.setWidth 32) = .ok program ∧
        (block op fill settings length data).result = .ok after ∧
        after.size = data.size ∧
        (∀ i, length.toNat % 2 ^ 32 ≤ i → after.getD i default = data.getD i default) ∧
        (ScansFirst op settings program data length.toNat after ↔ length.toNat < 2 ^ 32 ∧
          length.toNat ⌈/⌉ settings.cubeDim.toNat * settings.cubeDim.toNat ≤ 2 ^ 32) ∧
        ((length.toNat % 2 ^ 32) ⌈/⌉ settings.cubeDim.toNat * settings.cubeDim.toNat ≤ 2 ^ 32 →
          ScansFirst op settings program data (length.toNat % 2 ^ 32) after ∧
          ((∀ a b c, op.combine (op.combine a b) c = op.combine a (op.combine b c)) →
            ∀ i < length.toNat % 2 ^ 32, after.getD i default =
              (List.range' 1 i).foldl (fun acc j => op.combine acc (data.getD j default))
                (data.getD 0 default)))) := by
  have hrange : (length.setWidth 32).toNat = length.toNat % 2 ^ 32 := BitVec.toNat_setWidth 32 length
  constructor
  · intro hover
    rw [← hrange] at hover
    have hfault : Word.roundUp (length.setWidth 32) settings.planeDim = .error .addOverflow :=
      Word.roundUp_of_le settings.planeDim_pos hover
    rw [block_result, Program.cubeScan_of_roundUp_error _ _ _ hfault]
    rfl
  · intro hfits
    rw [← hrange] at hfits
    obtain ⟨program, hprogram⟩ := Program.cubeScan_isOk settings .source 0
      (Word.roundUp_of_lt settings.planeDim_pos hfits)
    let after := (program.run op (blockFrame settings) fill ⟨data, #[]⟩).source
    have hresult : (block op fill settings length data).result = .ok after :=
      block_of_program hprogram data
    have hsize : after.size = data.size := (program.run_sizes op fill _ _).1
    have hscans :
        (length.toNat % 2 ^ 32) ⌈/⌉ settings.cubeDim.toNat * settings.cubeDim.toNat ≤ 2 ^ 32 →
          ScansFirst op settings program data (length.toNat % 2 ^ 32) after := by
      intro hslots
      rw [← hrange] at hslots ⊢
      exact scansFirst_range hprogram hslots (by omega)
    refine ⟨program, after, hprogram, hresult, hsize, ?untouched, ?whole, ?range⟩
    case untouched =>
      intro i hi
      exact block_untouched hprogram data (hrange ▸ hi)
    case whole =>
      constructor
      · exact of_scansFirst hprogram hrange
      · rintro ⟨hword, hslots⟩
        rw [← Nat.mod_eq_of_lt hword] at hslots ⊢
        exact hscans hslots
    case range =>
      intro hslots
      refine ⟨hscans hslots, fun hassoc i hi => ?_⟩
      exact (hscans hslots).eq_foldl hassoc hi

/-- Running sums of the first five of seven numbers, two units to a plane. -/
theorem block_scans_length_iff_five :
    ∃ settings after, Settings.ofConfig { granularity := 2, cubeDim := 4 } 2 = .ok settings ∧
      (5 : Size).toNat ≤ (#[1, 2, 3, 4, 5, 6, 7] : Array (BitVec 32)).size ∧
      (block ⟨0, (· + ·)⟩ 9 settings 5 (#[1, 2, 3, 4, 5, 6, 7] : Array (BitVec 32))).result =
        .ok after ∧
      after.getD 4 default = 15 ∧ after.getD 5 default = 6 := by
  obtain ⟨settings, hsettings⟩ : ∃ settings,
      Settings.ofConfig { granularity := 2, cubeDim := 4 } 2 = .ok settings := ⟨_, rfl⟩
  have hdata : (5 : Size).toNat ≤ (#[1, 2, 3, 4, 5, 6, 7] : Array (BitVec 32)).size := by decide
  have hdims : settings.planeDim = 2 ∧ settings.cubeDim = 4 := by
    cases hsettings
    exact ⟨rfl, rfl⟩
  obtain ⟨_, hok⟩ := block_scans_length_iff ⟨0, (· + ·)⟩ 9 settings hdata
  obtain ⟨_, after, _, hresult, _, huntouched, _, hrange⟩ := hok (by rw [hdims.1]; decide)
  obtain ⟨_, hfold⟩ := hrange (by rw [hdims.2]; decide)
  exact ⟨settings, after, hsettings, hdata, hresult, hfold BitVec.add_assoc 4 (by decide),
    huntouched 5 (by decide)⟩

/-- A length one below the number of positions, nine units to a cube: the last iteration wraps, unit 4 has
item 0 again and is in range, and an element is scanned twice.  Two ones more than there are positions: the
cube scans two elements, and element 2 stays 1 where it should be 3.  Nothing is reported in either case. -/
theorem block_misses_length :
    (∃ (settings : Settings) (program : Program) (after : Array (BitVec 32)),
      Settings.ofConfig { granularity := 3, cubeDim := 9 } 3 = .ok settings ∧
      Program.cubeScan settings .source 0 4294967295 = .ok program ∧
      (block ⟨0, (· + ·)⟩ 0 settings 4294967295 (Array.replicate 4294967295 1)).result = .ok after ∧
      (Partition.mk 4294967295 9).slot 477218588 4 = 0 ∧
      (Partition.mk 4294967295 9).covers 477218588 4 = true ∧
      ¬((program.targets (blockFrame settings)).filterMap Cell.source?).Nodup) ∧
    ∃ (settings : Settings) (data after : Array (BitVec 32)),
      Settings.ofConfig { granularity := 2, cubeDim := 2 } 2 = .ok settings ∧
      data = Array.replicate 4294967298 1 ∧
      (block ⟨0, (· + ·)⟩ 0 settings 4294967298 data).result = .ok after ∧
      after.getD 2 default = 1 ∧
      (List.range' 1 2).foldl (fun acc j => acc + data.getD j default) (data.getD 0 default) = 3 := by
  constructor
  · obtain ⟨settings, hsettings⟩ : ∃ settings,
        Settings.ofConfig { granularity := 3, cubeDim := 9 } 3 = .ok settings := ⟨_, rfl⟩
    have hdims : settings.planeDim = 3 ∧ settings.cubeDim = 9 := by
      cases hsettings
      exact ⟨rfl, rfl⟩
    obtain ⟨program, hprogram⟩ := Program.cubeScan_isOk settings .source 0
      (Word.roundUp_of_lt (a := 4294967295) settings.planeDim_pos (by rw [hdims.1]; decide))
    have hcut : (4294967295 : Size).setWidth 32 = (4294967295 : Index) := by decide
    refine ⟨settings, program, _, hsettings, hprogram, block_of_program (hcut ▸ hprogram) _, by decide,
      by decide, ?_⟩
    intro hnodup
    have hslots := slots_of_nodup hprogram hnodup
    rw [hdims.2] at hslots
    exact absurd hslots (by decide)
  · obtain ⟨settings, hsettings⟩ : ∃ settings,
        Settings.ofConfig { granularity := 2, cubeDim := 2 } 2 = .ok settings := ⟨_, rfl⟩
    have hplane : settings.planeDim = 2 := by
      cases hsettings
      rfl
    obtain ⟨program, hprogram⟩ := Program.cubeScan_isOk settings .source 0
      (Word.roundUp_of_lt (a := 2) settings.planeDim_pos (by rw [hplane]; decide))
    have hcut : (4294967298 : Size).setWidth 32 = (2 : Index) := by decide
    let data : Array (BitVec 32) := Array.replicate 4294967298 1
    have hones : ∀ j < 4294967298, data.getD j default = 1 := by
      intro j hj
      rw [Array.getD_eq_getD_getElem?, Array.getElem?_replicate, if_pos hj]
      rfl
    refine ⟨settings, data, _, hsettings, rfl, block_of_program (hcut ▸ hprogram) data, ?_, ?_⟩
    · exact (block_untouched hprogram data (by decide)).trans (hones 2 (by decide))
    · show data.getD 0 default + data.getD 1 default + data.getD 2 default = 3
      rw [hones 0 (by decide), hones 1 (by decide), hones 2 (by decide)]
      rfl

end PrefixScan.Scan
