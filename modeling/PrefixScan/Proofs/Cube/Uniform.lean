import PrefixScan.Proofs.Cube.Nesting
import PrefixScan.Proofs.Cube.Writes

/-!
# Uniform plane instructions

A plane instruction combines the values of the units of a plane that take part in it, and what it does where
only some of them do is not defined on all devices.  The scans pad their ranges to whole planes for that
reason.  Since whole planes make whole iterations too, unit `u` of plane `p` has item `u` of chunk
`t * numPlanes + p` in iteration `t`, and the chunk is either wholly in the padded range or wholly behind it.

The chunks of a level are therefore numbered by the pairs of an iteration and a plane, one after the other,
and the last unit of the plane is the one that posts the total.

## Main definitions

* `Settings.planeSteps` — the plane instructions of a level, with their iterations and bounds.
* `Frame.Handles` — a plane takes part in a plane instruction with the items of a chunk.
* `PlanesAligned`, `TotalsPosted` — what holds for all plane instructions and posts of a level.

## Main results

* `Frame.active_padded`, `Frame.items_units` — who takes part in a plane instruction, and with which items.
* `planesAligned_of_fits`, `totalsPosted_of_fits` — the levels of a scan.
* `Program.scans_plane_aligned` — the scans by planes and by a cube.
-/

namespace PrefixScan

/-- The plane instructions for a range, in order, each with its iteration and its bound: the range padded to
whole planes. -/
def Settings.planeSteps (settings : Settings) (range : Index) : List (Index × Index) :=
  (List.range (range.toNat ⌈/⌉ settings.cubeDim.toNat)).map fun t =>
    (BitVec.ofNat 32 t,
      BitVec.ofNat 32 (range.toNat ⌈/⌉ settings.planeDim.toNat * settings.planeDim.toNat))

theorem Settings.getElem?_planeSteps {settings : Settings} {range : Index} {t : Nat}
    {step : Index × Index} : (settings.planeSteps range)[t]? = some step ↔
      t < range.toNat ⌈/⌉ settings.cubeDim.toNat ∧ (BitVec.ofNat 32 t, BitVec.ofNat 32
        (range.toNat ⌈/⌉ settings.planeDim.toNat * settings.planeDim.toNat)) = step := by
  rw [Settings.planeSteps, List.getElem?_map]
  by_cases ht : t < range.toNat ⌈/⌉ settings.cubeDim.toNat
  · simp [ht]
  · simp [ht]

namespace Cube

/-- A plane handles a chunk at a plane instruction: all of its units take part, and they have the items of
the chunk, one after the other. -/
structure Frame.Handles (frame : Frame) (step : Index × Index) (plane chunk : Nat) : Prop where
  active : frame.active plane step.1 step.2 = frame.units plane
  items : (frame.units plane).map (fun unit => (frame.itemOf step.1 unit).toNat) =
    List.range' (chunk * frame.planeDim) frame.planeDim

/-- The plane instructions of a level over a range are uniform, and handle each chunk of the padded range
once. -/
structure PlanesAligned (frame : Frame) (range : Index) : Prop where
  uniform : ∀ step ∈ frame.settings.planeSteps range, ∀ plane < frame.numPlanes,
    frame.active plane step.1 step.2 = [] ∨
      ∃! chunk, chunk < range.toNat ⌈/⌉ frame.planeDim ∧ frame.Handles step plane chunk
  once : ∀ chunk < range.toNat ⌈/⌉ frame.planeDim, ∃! place : Nat × Nat,
    place.2 < frame.numPlanes ∧ ∃ step, (frame.settings.planeSteps range)[place.1]? = some step ∧
      frame.Handles step place.2 chunk

/-- The totals of the chunks of a range are posted to the scratch memory of a level, each once, by the last
unit of the plane that handles the chunk. -/
structure TotalsPosted (frame : Frame) (level : Nat) (range : Index) : Prop where
  last : ∀ step ∈ frame.settings.planeSteps range, ∀ plane < frame.numPlanes, ∀ chunk,
    frame.Handles step plane chunk → ∃ unit, (frame.units plane).getLast? = some unit ∧
      (Instr.act step.1 step.2 (.post level)).moves frame plane =
        [⟨.shared level chunk, .copy (.value unit)⟩]
  once : (frame.settings.planeSteps range).flatMap
      (fun step => (Instr.act step.1 step.2 (.post level)).targets frame) =
    (List.range (range.toNat ⌈/⌉ frame.planeDim)).map (.shared level)

/-! ## Planes and chunks -/

section Planes

variable {frame : Frame}

/-- The items of a plane are those of a chunk. -/
theorem Frame.toNat_itemOf_unit {t : Nat} (ht : frame.Exact t) {plane j : Nat}
    (hplane : plane < frame.numPlanes) (hj : j < frame.planeDim) :
    (frame.itemOf (BitVec.ofNat 32 t) (plane * frame.planeDim + j)).toNat =
      (t * frame.numPlanes + plane) * frame.planeDim + j := by
  have hrow := frame.row_le plane hplane
  rw [ht.toNat_itemOf (by omega), ← frame.numPlanes_mul, Nat.add_mul, Nat.mul_assoc, Nat.add_assoc]

theorem Frame.items_units {t : Nat} (ht : frame.Exact t) {plane : Nat}
    (hplane : plane < frame.numPlanes) :
    (frame.units plane).map (fun unit => (frame.itemOf (BitVec.ofNat 32 t) unit).toNat) =
      List.range' ((t * frame.numPlanes + plane) * frame.planeDim) frame.planeDim := by
  rw [List.range'_eq_map_range, frame.units_eq_map, List.map_map]
  apply List.map_congr_left
  intro j hj
  exact Frame.toNat_itemOf_unit ht hplane (List.mem_range.1 hj)

variable {bound : Index} {chunks : Nat} (hbound : bound.toNat = chunks * frame.planeDim)
include hbound

/-- A plane takes part as a whole, or not at all. -/
theorem Frame.active_padded {t : Nat} (ht : frame.Exact t) {plane : Nat}
    (hplane : plane < frame.numPlanes) :
    frame.active plane (BitVec.ofNat 32 t) bound =
      if t * frame.numPlanes + plane < chunks then frame.units plane else [] := by
  have hcovers : ∀ unit ∈ frame.units plane,
      (frame.itemOf (BitVec.ofNat 32 t) unit < bound ↔ t * frame.numPlanes + plane < chunks) := by
    intro unit hunit
    rw [frame.units_eq_map] at hunit
    obtain ⟨j, hj, rfl⟩ := List.mem_map.1 hunit
    have hlane := List.mem_range.1 hj
    rw [BitVec.lt_def, Frame.toNat_itemOf_unit ht hplane hlane, hbound,
      ← Nat.div_lt_iff_lt_mul frame.planeDim_pos, Nat.mul_comm, Nat.mul_add_div frame.planeDim_pos,
      Nat.div_eq_of_lt hlane, Nat.add_zero]
  split
  · rename_i hin
    exact List.filter_eq_self.2 fun unit hunit => decide_eq_true ((hcovers unit hunit).2 hin)
  · rename_i hout
    exact List.filter_eq_nil_iff.2 fun unit hunit hactive =>
      hout ((hcovers unit hunit).1 (of_decide_eq_true hactive))

/-- The plane that handles a chunk. -/
theorem Frame.handles_iff {t : Nat} (ht : frame.Exact t) {plane : Nat}
    (hplane : plane < frame.numPlanes) {chunk : Nat} :
    frame.Handles (BitVec.ofNat 32 t, bound) plane chunk ↔
      t * frame.numPlanes + plane = chunk ∧ chunk < chunks := by
  have hpos := frame.planeDim_pos
  have hactive := Frame.active_padded hbound ht hplane
  have hitems := Frame.items_units ht hplane
  constructor
  · intro h
    have hstart := List.range'_inj.1 (hitems.symm.trans h.items)
    have hchunk : t * frame.numPlanes + plane = chunk :=
      Nat.eq_of_mul_eq_mul_right hpos (hstart.2.resolve_left (Nat.ne_of_gt hpos))
    refine ⟨hchunk, ?_⟩
    by_contra hout
    have hnone : frame.units plane = [] := h.active.symm.trans (hactive.trans (if_neg (hchunk ▸ hout)))
    have hlength : (frame.units plane).length = frame.planeDim := List.length_range'
    rw [hnone, List.length_nil] at hlength
    omega
  · rintro ⟨rfl, hin⟩
    rw [if_pos hin] at hactive
    exact ⟨hactive, hitems⟩

omit hbound in
/-- A unit posts a total if it is the last of its plane. -/
theorem Action.moves_post {t : Nat} (ht : frame.Exact t) {plane j : Nat}
    (hplane : plane < frame.numPlanes) (hj : j < frame.planeDim) (level : Nat) :
    (Action.post level).moves frame (BitVec.ofNat 32 t)
        (frame.itemOf (BitVec.ofNat 32 t) (plane * frame.planeDim + j)) (plane * frame.planeDim + j) =
      if j = frame.planeDim - 1 then
        [⟨.shared level (t * frame.numPlanes + plane),
          .copy (.value (plane * frame.planeDim + (frame.planeDim - 1)))⟩]
      else [] := by
  have hitem := Frame.toNat_itemOf_unit ht hplane hj
  have hchunk : (frame.itemOf (BitVec.ofNat 32 t) (plane * frame.planeDim + j)).toNat / frame.planeDim =
      t * frame.numPlanes + plane := by
    rw [hitem, Nat.mul_comm, Nat.mul_add_div frame.planeDim_pos, Nat.div_eq_of_lt hj, Nat.add_zero]
  have hlast := frame.isLast_iff (frame.itemOf (BitVec.ofNat 32 t) (plane * frame.planeDim + j))
  rw [hchunk, hitem, Frame.lastOf, Nat.add_left_cancel_iff] at hlast
  simp only [Action.moves, hlast, BitVec.toNat_udiv]
  split
  · rename_i hj
    rw [hchunk, hj]
  · rfl

/-- The last unit of a plane that handles a chunk posts the total, and no other unit does. -/
theorem Instr.moves_post {t : Nat} (ht : frame.Exact t) {plane : Nat}
    (hplane : plane < frame.numPlanes) (level : Nat) :
    (Instr.act (BitVec.ofNat 32 t) bound (.post level)).moves frame plane =
      if t * frame.numPlanes + plane < chunks then
        [⟨.shared level (t * frame.numPlanes + plane),
          .copy (.value (plane * frame.planeDim + (frame.planeDim - 1)))⟩]
      else [] := by
  have hpos := frame.planeDim_pos
  have hlast : frame.planeDim - 1 < frame.planeDim := by omega
  simp only [Instr.moves, Frame.active_padded hbound ht hplane]
  split
  · rw [frame.units_eq_map, List.flatMap_map]
    refine Eq.trans ?_ (flatMap_range_single _ hlast)
    apply List.flatMap_congr
    intro j hj
    exact Action.moves_post ht hplane (List.mem_range.1 hj) level
  · rfl

end Planes

/-! ## Levels -/

section Level

variable {frame : Frame} {range : Index}

theorem Frame.numPlanes_pos (frame : Frame) : 0 < frame.numPlanes :=
  Nat.pos_of_mul_pos_right (frame.numPlanes_mul ▸ frame.cubeDim_pos)

/-- The chunks of a range are handled in its iterations. -/
theorem Frame.iteration_lt {chunk : Nat} (hchunk : chunk < range.toNat ⌈/⌉ frame.planeDim) :
    chunk / frame.numPlanes < range.toNat ⌈/⌉ frame.cubeDim := by
  have hstart : chunk * frame.planeDim < range.toNat := (lt_ceil_iff frame.planeDim_pos).1 hchunk
  apply (lt_ceil_iff frame.cubeDim_pos).2
  calc chunk / frame.numPlanes * frame.cubeDim
      = chunk / frame.numPlanes * frame.numPlanes * frame.planeDim := by
        rw [Nat.mul_assoc, frame.numPlanes_mul]
    _ ≤ chunk * frame.planeDim := Nat.mul_le_mul_right _ (Nat.div_mul_le_self _ _)
    _ < range.toNat := hstart

theorem Frame.chunks_le : range.toNat ⌈/⌉ frame.planeDim ≤
    range.toNat ⌈/⌉ frame.cubeDim * frame.numPlanes := by
  by_contra hmore
  have hlt := Frame.iteration_lt (Nat.not_le.1 hmore)
  rw [Nat.mul_div_cancel _ frame.numPlanes_pos] at hlt
  exact Nat.lt_irrefl _ hlt

/-- Of a list of numbers, those below a limit, one after the other. -/
theorem flatMap_ite_lt {β : Type} (l : List Nat) (f : Nat → Nat) (g : Nat → β) (limit : Nat) :
    (l.flatMap fun p => if f p < limit then [g (f p)] else []) =
      ((l.map f).filter (· < limit)).map g := by
  induction l with
  | nil => rfl
  | cons p l ih =>
      rw [List.flatMap_cons, List.map_cons, List.filter_cons, ih]
      by_cases h : f p < limit <;> simp [h]

variable (hfit : range.toNat + frame.cubeDim ≤ 2 ^ 32)
include hfit

theorem Frame.toNat_padded : (BitVec.ofNat 32 (range.toNat ⌈/⌉ frame.planeDim * frame.planeDim)).toNat =
    range.toNat ⌈/⌉ frame.planeDim * frame.planeDim := by
  have hplane : frame.planeDim ≤ frame.cubeDim :=
    Nat.le_of_dvd frame.cubeDim_pos frame.settings.planeDim_dvd_cubeDim
  have hpadded : range.toNat ⌈/⌉ frame.planeDim * frame.planeDim ≤ range.toNat + frame.planeDim - 1 :=
    Nat.div_mul_le_self _ _
  have hpos := frame.planeDim_pos
  exact Nat.mod_eq_of_lt (Nat.lt_of_le_of_lt hpadded (by omega))

theorem Frame.exact_of_lt_ceil {t : Nat} (ht : t < range.toNat ⌈/⌉ frame.cubeDim) : frame.Exact t :=
  (frame.unwrapped_of_fits hfit).exact ht

theorem planesAligned_of_fits : PlanesAligned frame range := by
  have hbound := Frame.toNat_padded hfit
  constructor
  case uniform =>
    intro step hstep plane hplane
    obtain ⟨t, ht, rfl⟩ := List.mem_map.1 hstep
    have hexact := Frame.exact_of_lt_ceil hfit (List.mem_range.1 ht)
    by_cases hin : t * frame.numPlanes + plane < range.toNat ⌈/⌉ frame.planeDim
    · refine .inr ⟨_, ⟨hin, (Frame.handles_iff hbound hexact hplane).2 ⟨rfl, hin⟩⟩, ?_⟩
      intro chunk hchunk
      exact ((Frame.handles_iff hbound hexact hplane).1 hchunk.2).1.symm
    · exact .inl ((Frame.active_padded hbound hexact hplane).trans (if_neg hin))
  case once =>
    intro chunk hchunk
    have hplane := Nat.mod_lt chunk frame.numPlanes_pos
    have hiteration := Frame.iteration_lt hchunk
    have hexact := Frame.exact_of_lt_ceil hfit hiteration
    have hsplit := Nat.div_add_mod' chunk frame.numPlanes
    refine ⟨(chunk / frame.numPlanes, chunk % frame.numPlanes), ⟨hplane, _,
      Settings.getElem?_planeSteps.2 ⟨hiteration, rfl⟩,
      (Frame.handles_iff hbound hexact hplane).2 ⟨hsplit, hchunk⟩⟩, ?_⟩
    rintro ⟨t, plane⟩ ⟨hplane', step, hstep, hhandles⟩
    obtain ⟨ht, rfl⟩ := Settings.getElem?_planeSteps.1 hstep
    have hnumber := ((Frame.handles_iff hbound (Frame.exact_of_lt_ceil hfit ht) hplane').1 hhandles).1
    rw [Nat.mul_comm, Nat.add_comm] at hnumber
    obtain ⟨hdiv, hmod⟩ := (Nat.div_mod_unique frame.numPlanes_pos).2 ⟨hnumber, hplane'⟩
    rw [hdiv, hmod]

/-- The totals are posted chunk by chunk. -/
theorem targets_posts (level : Nat) : (frame.settings.planeSteps range).flatMap
      (fun step => (Instr.act step.1 step.2 (.post level)).targets frame) =
    (List.range (range.toNat ⌈/⌉ frame.planeDim)).map (.shared level) := by
  have hbound := Frame.toNat_padded hfit
  have hiteration : ∀ t ∈ List.range (range.toNat ⌈/⌉ frame.cubeDim),
      (Instr.act (BitVec.ofNat 32 t) (BitVec.ofNat 32
        (range.toNat ⌈/⌉ frame.planeDim * frame.planeDim)) (.post level)).targets frame =
      (((List.range frame.numPlanes).map (t * frame.numPlanes + ·)).filter
        (· < range.toNat ⌈/⌉ frame.planeDim)).map (.shared level) := by
    intro t ht
    have hexact := Frame.exact_of_lt_ceil hfit (List.mem_range.1 ht)
    rw [← flatMap_ite_lt, Instr.targets]
    apply List.flatMap_congr
    intro plane hplane
    rw [Instr.moves_post hbound hexact (List.mem_range.1 hplane)]
    split <;> rfl
  rw [Settings.planeSteps, List.flatMap_map, List.flatMap_congr hiteration, ← List.map_flatMap,
    ← List.filter_flatMap, Bracketing.flatMap_range_block, Partition.filter_lt_range Frame.chunks_le]

theorem totalsPosted_of_fits (level : Nat) : TotalsPosted frame level range := by
  have hbound := Frame.toNat_padded hfit
  constructor
  case last =>
    intro step hstep plane hplane chunk hhandles
    obtain ⟨t, ht, rfl⟩ := List.mem_map.1 hstep
    have hexact := Frame.exact_of_lt_ceil hfit (List.mem_range.1 ht)
    obtain ⟨rfl, hin⟩ := (Frame.handles_iff hbound hexact hplane).1 hhandles
    have hmoves := (Instr.moves_post hbound hexact hplane level).trans (if_pos hin)
    have hlast : (frame.units plane).getLast? =
        some (plane * frame.planeDim + (frame.planeDim - 1)) := by
      have hpos := frame.planeDim_pos
      rw [Frame.units, List.getLast?_range', if_neg (Nat.ne_of_gt hpos), Nat.add_sub_assoc hpos]
    exact ⟨_, hlast, hmoves⟩
  case once => exact targets_posts hfit level

end Level

/-! ## Code -/

/-- The iteration and the bound of a plane instruction. -/
def Instr.planeStep? : Instr → Option (Index × Index)
  | .scanPlane iteration bound => some (iteration, bound)
  | _ => none

/-- The iteration and the bound of an instruction that posts totals to the scratch memory of a level. -/
def Instr.postStep? (level : Nat) : Instr → Option (Index × Index)
  | .act iteration bound (.post level') => if level' = level then some (iteration, bound) else none
  | _ => none

theorem filterMap_unroll {β : Type} (f : Instr → Option β) (iterations : Index)
    (body : Index → List Instr) :
    (Program.unroll iterations body).filterMap f =
      (List.range iterations.toNat).flatMap fun t => (body (BitVec.ofNat 32 t)).filterMap f := by
  rw [Program.unroll, List.filterMap_flatMap]

section Code

variable {settings : Settings} {region : Region} {level calls : Nat} {range padded iterations : Index}
  {program : Program}

/-- The iterations over a padded range are the plane instructions for the range. -/
theorem planeSteps_eq (hpadded : Word.roundUp range settings.planeDim = .ok padded)
    (hiterations : (Partition.mk padded settings.cubeDim).numIterations = .ok iterations) :
    ((List.range iterations.toNat).flatMap fun t => [(BitVec.ofNat 32 t, padded)]) =
      settings.planeSteps range := by
  have hvalue : padded.toNat = range.toNat ⌈/⌉ settings.planeDim.toNat * settings.planeDim.toNat :=
    Word.roundUp_eq_ok settings.planeDim_pos hpadded
  obtain ⟨count, hcount, hceil⟩ := numIterations_padded settings hvalue
  obtain rfl : count = iterations := Except.ok.inj (hcount.symm.trans hiterations)
  have hiteration : count.toNat = range.toNat ⌈/⌉ settings.cubeDim.toNat := hceil
  rw [← List.map_eq_flatMap, Settings.planeSteps, ← hvalue, BitVec.ofNat_toNat, BitVec.setWidth_eq,
    hiteration]

theorem Program.planeScan_steps (h : Program.planeScan settings region range = .ok program) :
    program.shared = [] ∧ program.code.filterMap Instr.planeStep? = settings.planeSteps range ∧
      ∀ k, program.code.filterMap (Instr.postStep? k) = [] := by
  obtain ⟨padded, hpadded, h⟩ := bind_eq_ok.1 h
  obtain ⟨iterations, hiterations, h⟩ := bind_eq_ok.1 h
  cases h
  rw [← planeSteps_eq hpadded hiterations]
  simp [Program.flat, filterMap_unroll, List.filterMap_cons, Instr.planeStep?, Instr.postStep?]

/-- The first phase scans the chunks of its range in each iteration and posts their totals. -/
theorem Program.chunkPhase_steps (hpadded : Word.roundUp range settings.planeDim = .ok padded)
    (hiterations : (Partition.mk padded settings.cubeDim).numIterations = .ok iterations) :
    (Program.chunkPhase region level range padded iterations).filterMap Instr.planeStep? =
        settings.planeSteps range ∧
      (Program.chunkPhase region level range padded iterations).filterMap (Instr.postStep? level) =
        settings.planeSteps range := by
  rw [← planeSteps_eq hpadded hiterations]
  simp [Program.chunkPhase, filterMap_unroll, List.filterMap_cons, Instr.planeStep?, Instr.postStep?]

theorem Program.chunkPhase_postSteps_of_ne {k : Nat} (hk : level ≠ k) :
    (Program.chunkPhase region level range padded iterations).filterMap (Instr.postStep? k) = [] := by
  simp [Program.chunkPhase, filterMap_unroll, Instr.postStep?, hk]

theorem Program.foldPhase_steps :
    (Program.foldPhase region level range iterations).filterMap Instr.planeStep? = [] ∧
      ∀ k, (Program.foldPhase region level range iterations).filterMap (Instr.postStep? k) = [] := by
  simp [Program.foldPhase, filterMap_unroll, Instr.planeStep?, Instr.postStep?]

/-- The plane instructions of a scan are those for the ranges of its levels, one level after the other. -/
theorem Program.Nested.planeSteps (h : Program.Nested settings region level range calls program) :
    program.code.filterMap Instr.planeStep? =
      (range :: program.shared).flatMap settings.planeSteps := by
  induction h with
  | plane _ hscan =>
      obtain ⟨hshared, hsteps, _⟩ := Program.planeScan_steps hscan
      rw [hsteps, hshared, List.flatMap_singleton]
  | chunks _ hpadded _ hiterations _ _ ih =>
      simp only [List.filterMap_append, List.filterMap_cons, Instr.planeStep?, ih,
        (Program.chunkPhase_steps hpadded hiterations).1, Program.foldPhase_steps.1, List.append_nil,
        List.flatMap_cons]

/-- A scan posts no totals to a level above its own. -/
theorem Program.Nested.postSteps_of_lt (h : Program.Nested settings region level range calls program)
    {k : Nat} (hk : k < level) : program.code.filterMap (Instr.postStep? k) = [] := by
  induction h with
  | plane _ hscan => exact (Program.planeScan_steps hscan).2.2 k
  | chunks _ _ _ _ _ _ ih =>
      simp only [List.filterMap_append, List.filterMap_cons, Instr.postStep?, ih (Nat.lt_succ_of_lt hk),
        Program.chunkPhase_postSteps_of_ne (Nat.ne_of_gt hk), Program.foldPhase_steps.2, List.append_nil]

/-- The totals of a level are posted once per iteration over the range of the level. -/
theorem Program.Nested.postSteps (h : Program.Nested settings region level range calls program)
    {k : Nat} {chunks : Index} (hk : program.shared[k]? = some chunks) :
    ∃ r, (range :: program.shared)[k]? = some r ∧
      chunks.toNat = r.toNat ⌈/⌉ settings.planeDim.toNat ∧
      program.code.filterMap (Instr.postStep? (level + k)) = settings.planeSteps r := by
  induction h generalizing k with
  | plane _ hscan =>
      rw [(Program.planeScan_steps hscan).1] at hk
      cases hk
  | @chunks _ level _ range _ first _ _ _ _ hpadded hquot hiterations _ hinner ih =>
      cases k with
      | zero =>
          obtain rfl : first = chunks := Option.some.inj hk
          have hcount : first.toNat = range.toNat ⌈/⌉ settings.planeDim.toNat := by
            rw [Word.ceilDiv_eq_ok hquot]
            exact Word.toNat_ceilQuot _ _ settings.planeDim_pos
          refine ⟨range, rfl, hcount, ?_⟩
          simp only [Nat.add_zero, List.filterMap_append, List.filterMap_cons, Instr.postStep?,
            (Program.chunkPhase_steps hpadded hiterations).2, Program.foldPhase_steps.2,
            hinner.postSteps_of_lt (Nat.lt_succ_self level), List.append_nil]
      | succ k =>
          obtain ⟨r, hr, hcount, hsteps⟩ := ih hk
          have hne : level ≠ level + (k + 1) := by omega
          rw [Nat.add_assoc, Nat.add_comm 1 k] at hsteps
          refine ⟨r, hr, hcount, ?_⟩
          simp only [List.filterMap_append, List.filterMap_cons, Instr.postStep?, hsteps,
            Program.chunkPhase_postSteps_of_ne hne, Program.foldPhase_steps.2, List.append_nil,
            List.nil_append]

/-- The levels of a scan get shorter. -/
theorem Program.Nested.le_range (h : Program.Nested settings region level range calls program) :
    ∀ r ∈ range :: program.shared, r.toNat ≤ range.toNat := by
  have htwo := settings.two_le_planeDim
  induction h with
  | plane _ hscan =>
      rw [(Program.planeScan_steps hscan).1]
      simp
  | @chunks region level calls range padded chunks iterations writes inner hlong _ hquot _ _ _ ih =>
      have hlt := BitVec.lt_def.1 hlong
      have hless : chunks.toNat < range.toNat := by
        rw [Word.ceilDiv_eq_ok hquot]
        exact Word.ceilQuot_lt (by omega) htwo
      intro r hr
      rcases List.mem_cons.1 hr with rfl | hr
      · exact Nat.le_refl _
      · exact (ih r hr).trans hless.le

end Code

/-! ## Scans -/

/-- The plane instructions of the scans are uniform and aligned to planes, at every recursion level and in
every iteration: those of the code are those of its levels, the units of a plane take part in one together or
not at all, in order and with the items of one chunk, and each chunk has its place in one iteration and one
plane.  The total of a chunk is posted once, by the last unit of that plane. -/
theorem Program.scans_plane_aligned (frame : Frame) (region : Region) (level : Nat) {range : Index}
    (hfit : range.toNat + frame.cubeDim ≤ 2 ^ 32) :
    (∃ program, Program.planeScan frame.settings region range = .ok program ∧
      program.code.filterMap Instr.planeStep? = frame.settings.planeSteps range ∧
      PlanesAligned frame range) ∧
    ∃ program, Program.cubeScan frame.settings region level range = .ok program ∧
      program.code.filterMap Instr.planeStep? =
        (range :: program.shared).flatMap frame.settings.planeSteps ∧
      (∀ r ∈ range :: program.shared, PlanesAligned frame r) ∧
      ∀ k chunks, program.shared[k]? = some chunks → ∃ r, (range :: program.shared)[k]? = some r ∧
        chunks.toNat = r.toNat ⌈/⌉ frame.planeDim ∧
        program.code.filterMap (Instr.postStep? (level + k)) = frame.settings.planeSteps r ∧
        TotalsPosted frame (level + k) r := by
  have hpads := Settings.pads_of_fits hfit
  constructor
  · obtain ⟨_, _, hprogram, _⟩ := Program.planeScan_eq frame.settings region hpads
    exact ⟨_, hprogram, (Program.planeScan_steps hprogram).2.1, planesAligned_of_fits hfit⟩
  · obtain ⟨program, hprogram⟩ := Program.cubeScan_isOk frame.settings region level hpads
    obtain ⟨calls, hnested⟩ := Program.nested_iff.2 hprogram
    have hlevel : ∀ r ∈ range :: program.shared, r.toNat + frame.cubeDim ≤ 2 ^ 32 := by
      intro r hr
      have hle := hnested.le_range r hr
      omega
    refine ⟨program, hprogram, hnested.planeSteps, fun r hr => planesAligned_of_fits (hlevel r hr), ?_⟩
    intro k chunks hk
    obtain ⟨r, hr, hcount, hsteps⟩ := hnested.postSteps hk
    exact ⟨r, hr, hcount, hsteps, totalsPosted_of_fits (hlevel r (List.mem_of_getElem? hr)) (level + k)⟩

/-- Two planes of four units, and a range of four levels that is no multiple of anything: the totals of the
third level are posted by the last units of their planes. -/
theorem Program.scans_plane_aligned_four :
    ∃ frame : Frame, frame.settings.planeDim = 4 ∧ frame.settings.cubeDim = 8 ∧
      (510 : Index).toNat + frame.cubeDim ≤ 2 ^ 32 ∧ PlanesAligned frame 510 ∧ PlanesAligned frame 2 ∧
      TotalsPosted frame 2 32 := by
  let settings : Settings :=
    { granularity := 512, cubeDim := 8, planeDim := 4, two_le_planeDim := by decide,
      cubeDim_pos := by decide, planeDim_dvd_cubeDim := by decide,
      two_le_granularity := by decide, planeDim_dvd_granularity := by decide }
  let frame : Frame := ⟨settings, 0, 0⟩
  have hfit : (510 : Index).toNat + frame.cubeDim ≤ 2 ^ 32 := by decide
  have hlevels : Scratch.levelsOf settings.planeDim 510 = [128, 32, 8, 2] := by
    simp [settings, Scratch.levelsOf, Word.ceilQuot]
  obtain ⟨_, program, hprogram, _, haligned, hposted⟩ := Program.scans_plane_aligned frame .source 0 hfit
  have hshared : program.shared = [128, 32, 8, 2] :=
    (Program.cubeScan_shared (Settings.pads_of_fits hfit) hprogram).trans hlevels
  rw [hshared] at haligned hposted
  obtain ⟨r, hr, _, _, htotals⟩ := hposted 2 8 rfl
  obtain rfl : 32 = r := Option.some.inj hr
  exact ⟨frame, rfl, rfl, hfit, haligned 510 (by simp), haligned 2 (by simp), htotals⟩

end Cube

end PrefixScan
