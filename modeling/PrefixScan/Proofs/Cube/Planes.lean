import PrefixScan.Proofs.Cube.Footprint
import PrefixScan.Proofs.Schedule
import Mathlib.Data.List.FinRange

/-!
# Planes out of step

Nothing but the barriers orders the planes of a cube.  This module lets them go on independently, move by
move, and shows that the barriers of a scan suffice: every schedule ends in the memory that the planes
leave behind if they take turns at each instruction.  A move touches at most one cell that is not private
to its unit, so there is nothing finer to interleave.

## Main definitions

* `planes` — the planes of a cube as threads.
* `ScheduleFree` — the outcome does not depend on the schedule.
* `ReadsBack` — the total of a block is read by the unit that stored it, right after it did.

## Main results

* `Footprints.scheduleFree` — footprints that are apart make code independent of the schedule.
* `Program.scan_scheduleFree` — the scan of a range by a cube, and the reduction of a block.
-/

namespace PrefixScan.Cube

open Schedule (Machine Round State)

/-! ## Instructions as rounds -/

section Round

variable {ι : Type} {frame : ι → Frame} {plane : ι → Nat}

/-- An instruction as a round of threads that are planes of cubes. -/
def Instr.round (frame : ι → Frame) (plane : ι → Nat) : Instr → Round Move ι
  | .barrier => .barrier
  | instr => .moves fun i => instr.moves (frame i) (plane i)

theorem Instr.movesOf_round (i : ι) (instr : Instr) :
    (instr.round frame plane).movesOf i = instr.moves (frame i) (plane i) := by
  cases instr <;> rfl

theorem flatMap_movesOf_round (i : ι) (code : List Instr) :
    (code.map (Instr.round frame plane)).flatMap (Round.movesOf i) =
      code.flatMap (Instr.moves (frame i) (plane i)) := by
  rw [List.flatMap_map]
  exact List.flatMap_congr fun instr _ => Instr.movesOf_round i instr

/-- A phase of the rounds is a phase of the code. -/
theorem exists_phase_of_rounds {code : List Instr} {rounds : List (Round Move ι)}
    (hphase : rounds <:+: code.map (Instr.round frame plane)) (hfree : Round.barrier ∉ rounds) :
    ∃ phase, phase <:+: code ∧ Instr.barrier ∉ phase ∧
      ∀ i, rounds.flatMap (Round.movesOf i) = phase.flatMap (Instr.moves (frame i) (plane i)) := by
  obtain ⟨phase, hinfix, rfl⟩ := List.infix_map_iff.1 hphase
  refine ⟨phase, hinfix, fun hmem => hfree (List.mem_map.2 ⟨_, hmem, rfl⟩), ?_⟩
  intro i
  exact flatMap_movesOf_round i phase

end Round

/-! ## Planes as threads -/

variable {α : Type} [Inhabited α]

/-- The planes of a cube, as the threads of one team. -/
def planes (op : Operator α) (frame : Frame) (code : List Instr) :
    Machine Move (Memory α) (Fin frame.numPlanes) Unit where
  effect _ := Move.apply op
  team _ := ()
  code _ := code.map (Instr.round (fun _ => frame) Fin.val)

/-- However the planes are scheduled, they are never stuck, and end with the memory that they end with in
turns. -/
def ScheduleFree (frame : Frame) (code : List Instr) : Prop :=
  ∀ {α : Type} [Inhabited α] (op : Operator α) (m : Memory α) (state : State Move (Memory α) _),
    (planes op frame code).Reaches ((planes op frame code).start m) state →
      (∃ final, (planes op frame code).Reaches state final ∧ final.Done) ∧
        (state.Done → state.memory = runCode op frame m code)

section Schedules

variable {op : Operator α} {frame : Frame} {code : List Instr}

/-- The planes of a cube in turns. -/
theorem Instr.run_finRange (instr : Instr) (m : Memory α) :
    (List.finRange frame.numPlanes).foldl
      (fun m (plane : Fin frame.numPlanes) => (instr.moves frame plane).foldl (Move.apply op) m) m =
        instr.run op frame m := by
  have hplanes : (List.finRange frame.numPlanes).map Fin.val = List.range frame.numPlanes :=
    List.map_coe_finRange_eq_range
  rw [run, ← hplanes, List.foldl_map]
  rfl

/-- One of the schedules is that of the planes in turns. -/
theorem reaches_runCode (op : Operator α) (frame : Frame) (code : List Instr) (m : Memory α) :
    ∃ final, (planes op frame code).Reaches ((planes op frame code).start m) final ∧ final.Done ∧
      final.memory = runCode op frame m code := by
  have hmembers : ∀ i, i ∈ List.finRange frame.numPlanes ↔ (planes op frame code).team i = () := by
    simp [planes]
  have hstart : ∀ i, (planes op frame code).team i = () →
      ((planes op frame code).start m).rest i =
        ((planes op frame code).code ()).flatMap (Round.steps i) := fun _ _ => rfl
  obtain ⟨after, hreach, hdone, _⟩ := Machine.lockstep (List.nodup_finRange _) hmembers hstart
  refine ⟨_, hreach, fun i => hdone i rfl, ?_⟩
  have hround : ∀ (m : Memory α) (instr : Instr), (List.finRange frame.numPlanes).foldl (fun m i =>
      ((instr.round (fun _ => frame) Fin.val).movesOf i).foldl (Move.apply op) m) m =
        instr.run op frame m := by
    intro m instr
    simp only [Instr.movesOf_round]
    exact instr.run_finRange m
  show Machine.inTurns (planes op frame code) (List.finRange frame.numPlanes)
    (code.map (Instr.round (fun _ => frame) Fin.val)) m = _
  rw [Machine.inTurns, List.foldl_map]
  simp only [planes, hround]
  rfl

/-- Footprints that are apart leave nothing for the barriers to order. -/
theorem Footprints.independent (h : Footprints frame code) (op : Operator α) :
    (planes op frame code).Independent := by
  refine ⟨?_, fun i j hteam => absurd rfl hteam⟩
  intro i j hne _ phase hphase hfree a ha b hb m
  obtain ⟨instrs, hinfix, hfree', hmoves⟩ := exists_phase_of_rounds hphase hfree
  rw [hmoves] at ha hb
  obtain ⟨instr, hinstr, ha⟩ := List.mem_flatMap.1 ha
  obtain ⟨instr', hinstr', hb⟩ := List.mem_flatMap.1 hb
  have hplanes : (i : Nat) ≠ j := fun hsame => hne (Fin.ext hsame)
  exact Move.apply_comm
    (h.apart hinfix hfree' hinstr hinstr' i.isLt j.isLt hplanes ha hb)
    (h.apart hinfix hfree' hinstr' hinstr j.isLt i.isLt hplanes.symm hb ha) m

theorem Footprints.scheduleFree (h : Footprints frame code) : ScheduleFree frame code := by
  intro α _ op m state hstate
  obtain ⟨final, hfinal, hdone, hmemory⟩ := reaches_runCode op frame code m
  have hreach := (h.independent op).reaches hstate hfinal hdone
  refine ⟨⟨final, hreach, hdone⟩, ?_⟩
  intro hended
  rw [Machine.Reaches.eq_of_done hreach hended, hmemory]

end Schedules

/-! ## Reading back -/

/-- The unit that publishes the total of the block reads the last item of the block right after it stored
it itself, with no barrier between. -/
def ReadsBack (frame : Frame) (code : List Instr) : Prop :=
  ∃ before iteration owner,
    let stored := Instr.act iteration frame.settings.granularity (.store .source)
    let last := frame.settings.granularity - 1
    code = before ++ [stored, .fetchItem owner last, .publish owner] ∧
      owner.toNat < frame.cubeDim ∧
      ⟨frame.cell last .source, .copy (.value owner.toNat)⟩ ∈ stored.unitMoves frame owner.toNat

theorem Program.unroll_last {iterations : Index} {n : Nat} (hn : iterations.toNat = n + 1)
    (body : Index → List Instr) :
    ∃ before, Program.unroll iterations body = before ++ body (BitVec.ofNat 32 n) := by
  refine ⟨(List.range n).flatMap fun t => body (BitVec.ofNat 32 t), ?_⟩
  rw [unroll, hn, List.range_succ, List.flatMap_append, List.flatMap_singleton]

/-- A scan ends with the store of its last iteration. -/
theorem ScanCode.ends {settings : Settings} {region : Region} {level : Nat} {range : Index}
    {code : List Instr} (h : ScanCode settings region level range code) (hpos : 0 < range.toNat) :
    ∃ before, code = before ++
      [.act (BitVec.ofNat 32 ((range.toNat - 1) / settings.cubeDim.toNat)) range (.store region)] := by
  have hcube := settings.cubeDim_pos
  have hcount : (range.toNat + settings.cubeDim.toNat - 1) / settings.cubeDim.toNat =
      (range.toNat - 1) / settings.cubeDim.toNat + 1 := by
    rw [← Nat.add_div_right _ hcube]
    congr 1
    omega
  cases h with
  | @plane _ _ _ padded iterations _ hiterations =>
      obtain ⟨before, hbefore⟩ := Program.unroll_last (hiterations.trans hcount) fun t =>
        chunkCode region t range padded ++ [Instr.act t range (.store region)]
      rw [hbefore, ← List.append_assoc]
      exact ⟨_, rfl⟩
  | @chunks _ _ _ padded chunks iterations inner _ _ _ hiterations _ =>
      obtain ⟨before, hbefore⟩ := Program.unroll_last (hiterations.trans hcount) fun t =>
        [Instr.act t range (.recall level), .act t range (.prepend level)] ++
          [.act t range (.store region)]
      have hfold : Program.foldPhase region level range iterations = _ := hbefore
      rw [hfold, ← List.append_assoc, ← List.cons_append, ← List.append_assoc]
      exact ⟨_, rfl⟩

/-- The last item of a range belongs to the last iteration, and there to its owner. -/
theorem ScanCode.stores_last {frame : Frame} {range owner : Index} {region : Region}
    (hpos : 0 < range.toNat) (hfit : range.toNat + frame.cubeDim ≤ 2 ^ 32)
    (howner : owner.toNat = (range - 1).toNat % frame.cubeDim) :
    ⟨frame.cell (range - 1) region, .copy (.value owner.toNat)⟩ ∈
      (Instr.act (BitVec.ofNat 32 ((range.toNat - 1) / frame.cubeDim)) range
        (.store region)).unitMoves frame owner.toNat := by
  have hlast := Word.toNat_sub_one hpos
  have hsplit := Nat.div_add_mod' (range.toNat - 1) frame.cubeDim
  have hmod := Nat.mod_lt (range.toNat - 1) frame.cubeDim_pos
  have hexact : frame.Exact ((range.toNat - 1) / frame.cubeDim) := by
    unfold Frame.Exact
    omega
  have hvisit : frame.Visits ((range.toNat - 1) / frame.cubeDim) (range.toNat - 1) :=
    ⟨by omega, by omega⟩
  obtain ⟨hlane, hitem⟩ := hexact.lane_of_visits hvisit (by omega : _ < range.toNat)
  have hunit : owner.toNat =
      range.toNat - 1 - (range.toNat - 1) / frame.cubeDim * frame.cubeDim := by
    rw [howner, hlast]
    omega
  rw [← hunit] at hlane hitem
  have hword : frame.itemOf (BitVec.ofNat 32 ((range.toNat - 1) / frame.cubeDim)) owner.toNat =
      range - 1 := BitVec.eq_of_toNat_eq (hitem.trans hlast.symm)
  simp only [Instr.unitMoves, if_pos hlane, Action.moves, hword, List.mem_singleton]

/-! ## Scans and reductions -/

/-- The barriers of a cube scan suffice, and so they do with the publication of the block's total behind
it. -/
theorem Program.scan_scheduleFree (settings : Settings) (range : Index)
    (hfit : range.toNat + settings.cubeDim.toNat ≤ 2 ^ 32) :
    (∃ scan, Program.cubeScan settings .source 0 range = .ok scan ∧
      ∀ frame, frame.settings = settings →
        Footprints frame scan.code ∧ ScheduleFree frame scan.code) ∧
    (range = settings.granularity → ∃ program, Program.reduce settings = .ok program ∧
      ∀ frame, frame.settings = settings →
        Footprints frame program.code ∧ ScheduleFree frame program.code ∧
          ReadsBack frame program.code) := by
  constructor
  · obtain ⟨scan, hscan, hcode⟩ :=
      Program.cubeScan_scanCode settings .source 0 (Settings.pads_of_fits hfit)
    refine ⟨scan, hscan, ?_⟩
    rintro frame rfl
    have hnone : ∀ instr ∈ ([] : List Instr), instr.Owned frame (frame.itemOwner .source none) := nofun
    have hphased := hcode.phased rfl trivial hfit hnone
    rw [List.append_nil] at hphased
    exact ⟨hphased.footprints, hphased.footprints.scheduleFree⟩
  · rintro rfl
    obtain ⟨scan, owner, hscan, howner, hreduce⟩ := Program.reduce_eq settings
    refine ⟨_, hreduce, ?_⟩
    rintro frame rfl
    have hfootprints := (Program.reduce_phased hreduce hfit).footprints
    have hpos : 0 < frame.granularity :=
      Nat.lt_of_lt_of_le Nat.zero_lt_two frame.settings.two_le_granularity
    obtain ⟨before, hends⟩ := (ScanCode.of_cubeScan hscan (Settings.pads_of_fits hfit)).ends hpos
    have hunit : owner.toNat < frame.cubeDim := howner ▸ Nat.mod_lt _ frame.cubeDim_pos
    refine ⟨hfootprints, hfootprints.scheduleFree, before, _, owner, ?_, hunit,
      ScanCode.stores_last hpos hfit howner⟩
    rw [hends, List.append_assoc]
    rfl

/-- Two planes of two units on a block of four elements, which takes two barriers. -/
theorem Program.scan_scheduleFree_four :
    ∃ settings : Settings, settings.granularity = 4 ∧ settings.cubeDim = 4 ∧
      settings.planeDim = 2 ∧ (4 : Index).toNat + settings.cubeDim.toNat ≤ 2 ^ 32 ∧
      ∃ program, Program.reduce settings = .ok program ∧
        ScheduleFree ⟨settings, 0, 0⟩ program.code := by
  let settings : Settings :=
    ⟨4, 4, 2, by decide, by decide, by decide, by decide, by decide⟩
  obtain ⟨_, hreduction⟩ := Program.scan_scheduleFree settings 4 (by decide)
  obtain ⟨program, hprogram, hcode⟩ := hreduction rfl
  exact ⟨settings, rfl, rfl, rfl, by decide, program, hprogram, (hcode ⟨settings, 0, 0⟩ rfl).2.1⟩

end PrefixScan.Cube
