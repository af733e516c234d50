import PrefixScan.Proofs.Cube.CubeScan
import PrefixScan.Proofs.Submission
import Mathlib.Algebra.Order.Ring.Nat
import Mathlib.Order.Bounds.Basic

/-!
# The nesting of a cube scan

The expansion of a cube scan calls itself for the chunk totals until they fit a plane.  The scratch layout
lists the lengths of the shared memories without an expansion, with a stopping test of its own.  Both are in
step at every depth, and both depend only on which powers of the plane dimension reach the range.

## Main definitions

* `Program.Nested` — the calls of an expansion, and how many of them scan by chunks.
* `Announced` — a scratch layout is that of a cube scan.

## Main results

* `Program.nested_iff` — the calls are those that the expansion makes.
* `Scratch.toNat_levelsOf`, `Scratch.isLeast_length_levelsOf`, `Scratch.le_of_getLast?_levelsOf` — the
  lengths, how many there are, and the last of them.
* `cubeScan_announced` — the expansion comes to an end with the announced scratch memories.
-/

namespace PrefixScan

/-! ## Scratch layouts -/

namespace Scratch

variable {planeDim range : Index}

/-- Level `k` has a total for every `planeDim ^ (k + 1)` items. -/
theorem toNat_levelsOf {k : Nat} {len : Index} (hlen : (levelsOf planeDim range)[k]? = some len) :
    len.toNat = range.toNat ⌈/⌉ planeDim.toNat ^ (k + 1) := by
  induction k generalizing range with
  | zero =>
      rw [levelsOf] at hlen
      split at hlen
      · rename_i hlong
        obtain rfl : Word.ceilQuot range planeDim = len := Option.some.inj hlen
        rw [Nat.pow_one]
        exact Word.toNat_ceilQuot range planeDim (Nat.zero_lt_of_lt (BitVec.lt_def.1 hlong.2))
      · cases hlen
  | succ k ih =>
      rw [levelsOf] at hlen
      split at hlen
      · rename_i hlong
        have hpos : 0 < planeDim.toNat := Nat.zero_lt_of_lt (BitVec.lt_def.1 hlong.2)
        have hchunks : (Word.ceilQuot range planeDim).toNat = range.toNat ⌈/⌉ planeDim.toNat :=
          Word.toNat_ceilQuot range planeDim hpos
        rw [ih hlen, hchunks, ceilDiv_ceilDiv hpos (Nat.pow_pos hpos), ← Nat.pow_succ']
      · cases hlen

/-- There are as many levels as powers of the plane dimension, from the first on, that the range exceeds. -/
theorem isLeast_length_levelsOf (hplane : 2 ≤ planeDim.toNat) :
    IsLeast {d | range.toNat ≤ planeDim.toNat ^ (d + 1)} (levelsOf planeDim range).length := by
  fun_induction levelsOf planeDim range with
  | case1 range hlong chunks _ ih =>
      have hpos : 0 < planeDim.toNat := by omega
      have hchunks : chunks.toNat = range.toNat ⌈/⌉ planeDim.toNat :=
        Word.toNat_ceilQuot range planeDim hpos
      have hnext : ∀ d, chunks.toNat ≤ planeDim.toNat ^ (d + 1) ↔
          range.toNat ≤ planeDim.toNat ^ (d + 1 + 1) := by
        intro d
        rw [hchunks, ceilDiv_le_iff_le_mul hpos, ← Nat.pow_succ']
      obtain ⟨hmem, hlower⟩ := ih
      refine ⟨(hnext _).1 hmem, fun d hd => ?_⟩
      cases d with
      | zero =>
          have hfits : range.toNat ≤ planeDim.toNat ^ 1 := hd
          have hexceeds := BitVec.lt_def.1 hlong.1
          rw [Nat.pow_one] at hfits
          omega
      | succ d => exact Nat.succ_le_succ (hlower ((hnext d).2 hd))
  | case2 range hshort =>
      have hone : 1 < planeDim := BitVec.lt_def.2 hplane
      have hfits : range ≤ planeDim := BitVec.not_lt.1 fun hlong => hshort ⟨hlong, hone⟩
      refine ⟨?_, fun d _ => Nat.zero_le d⟩
      change range.toNat ≤ planeDim.toNat ^ 1
      rw [Nat.pow_one]
      exact BitVec.le_def.1 hfits

/-- A range without levels fits a plane. -/
theorem le_of_levelsOf_eq_nil (hone : 1 < planeDim) (hnil : levelsOf planeDim range = []) :
    range ≤ planeDim := by
  rw [levelsOf] at hnil
  split at hnil
  · cases hnil
  · rename_i hshort
    exact BitVec.not_lt.1 fun hlong => hshort ⟨hlong, hone⟩

/-- The totals of the last level fit a plane. -/
theorem le_of_getLast?_levelsOf {len : Index} (hlast : (levelsOf planeDim range).getLast? = some len) :
    len ≤ planeDim := by
  fun_induction levelsOf planeDim range with
  | case1 range hlong chunks _ ih =>
      rw [List.getLast?_cons] at hlast
      cases hmore : (levelsOf planeDim chunks).getLast? with
      | some last =>
          rw [hmore] at hlast
          exact ih (hmore.trans hlast)
      | none =>
          have hnil : levelsOf planeDim chunks = [] := List.getLast?_eq_none_iff.1 hmore
          rw [hmore] at hlast
          obtain rfl : chunks = len := Option.some.inj hlast
          exact le_of_levelsOf_eq_nil hlong.2 hnil
  | case2 range hshort => cases hlast

end Scratch

namespace Cube

/-! ## Calls -/

namespace Program

/-- The calls of an expansion: `calls` scans by chunks, each the scan of the chunk totals of the one before,
and the scan by planes that ends them. -/
inductive Nested (settings : Settings) : Region → Nat → Index → Nat → Program → Prop
  | plane {region : Region} {level : Nat} {range : Index} {program : Program}
      (hplane : range ≤ settings.planeDim)
      (hscan : planeScan settings region range = .ok program) :
      Nested settings region level range 0 program
  | chunks {region : Region} {level calls : Nat}
      {range padded chunks iterations writeIterations : Index} {inner : Program}
      (hlong : settings.planeDim < range)
      (hpadded : Word.roundUp range settings.planeDim = .ok padded)
      (hchunks : Word.ceilDiv range settings.planeDim = .ok chunks)
      (hiterations : (Partition.mk padded settings.cubeDim).numIterations = .ok iterations)
      (hwrite : (Partition.mk range settings.cubeDim).numIterations = .ok writeIterations)
      (hinner : Nested settings (.shared level) (level + 1) chunks calls inner) :
      Nested settings region level range (calls + 1) {
        code := chunkPhase region level range padded iterations ++ .barrier :: inner.code ++
          .barrier :: foldPhase region level range writeIterations
        shared := chunks :: inner.shared
        kept := iterations :: inner.kept }

variable {settings : Settings} {region : Region} {level calls : Nat} {range : Index} {program : Program}

theorem Nested.cubeScan_eq (h : Nested settings region level range calls program) :
    cubeScan settings region level range = .ok program := by
  induction h with
  | plane hplane hscan => rw [cubeScan, dif_pos hplane, hscan]
  | chunks hlong hpadded hchunks hiterations hwrite _ ih =>
      rw [cubeScan, dif_neg (BitVec.not_le.2 hlong)]
      simp only [hpadded]
      split
      · rename_i fault hfault
        rw [hchunks] at hfault
        cases hfault
      · rename_i chunks' hchunks'
        rw [hchunks] at hchunks'
        cases hchunks'
        simp only [hiterations, hwrite, ih]

/-- The calls of an expansion are those that it makes. -/
theorem nested_iff : (∃ calls, Nested settings region level range calls program) ↔
    cubeScan settings region level range = .ok program := by
  refine ⟨fun ⟨_, hnested⟩ => hnested.cubeScan_eq, fun h => ?_⟩
  fun_induction cubeScan settings region level range generalizing program with
  | case1 region level range hplane => exact ⟨0, .plane hplane h⟩
  | case7 region level range hlong padded hpadded chunks hchunks iterations hiterations
      writeIterations hwrite _ inner hinner ih =>
      obtain ⟨calls, hnested⟩ := ih hinner
      cases h
      exact ⟨calls + 1, .chunks (BitVec.not_le.1 hlong) hpadded hchunks hiterations hwrite hnested⟩
  | _ => cases h

/-- Every scan by chunks has one shared memory, and the scan by planes has none. -/
theorem Nested.length_shared (h : Nested settings region level range calls program) :
    program.shared.length = calls := by
  induction h with
  | plane _ hscan =>
      obtain ⟨padded, _, hscan⟩ := bind_eq_ok.1 hscan
      obtain ⟨iterations, _, hscan⟩ := bind_eq_ok.1 hscan
      cases hscan
      rfl
  | chunks _ _ _ _ _ _ ih => rw [List.length_cons, ih]

end Program

/-! ## Announcements -/

/-- A scratch layout is that of the scan of `range` items of a region by a cube, from a recursion level on.
The expansion has an end and no fault; the layout lists its shared memories, one for each scan by chunks. -/
structure Announced (settings : Settings) (region : Region) (level : Nat) (range : Index)
    (scratch : Scratch) : Prop where
  expands : ∃ program, Program.cubeScan settings region level range = .ok program ∧
    program.shared = scratch.levels ∧
    Program.Nested settings region level range scratch.depth program
  lengths : ∀ k len, scratch.levels[k]? = some len →
    len.toNat = range.toNat ⌈/⌉ settings.planeDim.toNat ^ (k + 1)
  depth : IsLeast {d | range.toNat ≤ settings.planeDim.toNat ^ (d + 1)} scratch.depth
  last : ∀ len, scratch.levels.getLast? = some len → len ≤ settings.planeDim

theorem announced_of_pads (settings : Settings) (region : Region) (level : Nat) {range : Index}
    (hpads : settings.Pads range) :
    Announced settings region level range (Scratch.ofRange range settings.planeDim) := by
  obtain ⟨program, hprogram⟩ := Program.cubeScan_isOk settings region level hpads
  obtain ⟨calls, hnested⟩ := Program.nested_iff.2 hprogram
  have hshared := Program.cubeScan_shared hpads hprogram
  have hcalls : calls = (Scratch.ofRange range settings.planeDim).depth := by
    rw [← hnested.length_shared, hshared]
    rfl
  exact {
    expands := ⟨program, hprogram, hshared, hcalls ▸ hnested⟩
    lengths := fun _ _ => Scratch.toNat_levelsOf
    depth := Scratch.isLeast_length_levelsOf settings.two_le_planeDim
    last := fun _ => Scratch.le_of_getLast?_levelsOf }

/-- The scratch layout of a range is that of its cube scan, for every range that leaves room for a further
plane, and for a block of any size. -/
theorem cubeScan_announced (settings : Settings) (region : Region) (level : Nat) :
    (∀ range : Index, range.toNat + settings.planeDim.toNat ≤ 2 ^ 32 →
      Announced settings region level range (Scratch.ofRange range settings.planeDim)) ∧
    Announced settings region level settings.granularity settings.scratch := by
  constructor
  · intro range hroom
    exact announced_of_pads settings region level (Word.roundUp_isOk settings.planeDim_pos hroom)
  · exact announced_of_pads settings region level
      (Settings.pads_of_dvd settings.planeDim_dvd_granularity)

/-- A range of four levels that is no multiple of the plane dimension. -/
theorem cubeScan_announced_four :
    (510 : Index).toNat + (4 : Index).toNat ≤ 2 ^ 32 ∧
      ∃ settings : Settings, settings.planeDim = 4 ∧
        Announced settings .source 0 510 ⟨[128, 32, 8, 2]⟩ := by
  have hroom : (510 : Index).toNat + (4 : Index).toNat ≤ 2 ^ 32 := by decide
  let settings : Settings :=
    { granularity := 512, cubeDim := 8, planeDim := 4, two_le_planeDim := by decide,
      cubeDim_pos := by decide, planeDim_dvd_cubeDim := by decide,
      two_le_granularity := by decide, planeDim_dvd_granularity := by decide }
  have hlevels : Scratch.ofRange 510 4 = ⟨[128, 32, 8, 2]⟩ := by
    simp [Scratch.ofRange, Scratch.levelsOf, Word.ceilQuot]
  obtain ⟨hranges, _⟩ := cubeScan_announced settings .source 0
  exact ⟨hroom, settings, rfl, hlevels ▸ hranges 510 hroom⟩

end Cube

end PrefixScan
