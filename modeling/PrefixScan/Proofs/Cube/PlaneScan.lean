import PrefixScan.Proofs.Cube.Storing
import Mathlib.Order.Defs.LinearOrder

/-!
# Plane scans

A plane scan leaves each item of its range with the chain of the items of its chunk up to itself, and
changes nothing else but working values.  The range may be of any length: the chunks of an iteration
are not touched by the iterations before, since whole planes make whole iterations.

## Main definitions

* `Settings.Pads` — a range can be padded to whole planes.
* `Frame.Unwrapped` — no iteration over a range wraps.

## Main results

* `Program.planeScan_eq` — the code of a plane scan, which exists if the range can be padded.
* `planeScan_run` — what it does.
-/

namespace PrefixScan

/-! ## Padding to whole planes -/

namespace Settings

variable {settings : Settings} {range : Index}

theorem planeDim_pos (settings : Settings) : 0 < settings.planeDim.toNat :=
  Nat.lt_of_lt_of_le Nat.zero_lt_two settings.two_le_planeDim

/-- The range can be padded to whole planes: what it takes up then still fits a word. -/
def Pads (settings : Settings) (range : Index) : Prop :=
  ∃ padded, Word.roundUp range settings.planeDim = .ok padded ∧
    padded.toNat = (range.toNat + settings.planeDim.toNat - 1) / settings.planeDim.toNat *
      settings.planeDim.toNat

/-- A range to which a further iteration of the cube can be added has room for its padding. -/
theorem pads_of_fits (hfit : range.toNat + settings.cubeDim.toNat ≤ 2 ^ 32) :
    settings.Pads range := by
  have hle := Nat.le_of_dvd settings.cubeDim_pos settings.planeDim_dvd_cubeDim
  exact Word.roundUp_isOk settings.planeDim_pos (by omega)

/-- Whole planes need no padding. -/
theorem pads_of_dvd (hdvd : settings.planeDim.toNat ∣ range.toNat) : settings.Pads range := by
  refine ⟨range, ?_, (ceil_mul_of_dvd settings.planeDim_pos hdvd).symm⟩
  rw [Word.roundUp_eq _ settings.planeDim_pos,
    if_pos ((Word.mod_eq_zero_iff _ _).2 (Nat.mod_eq_zero_of_dvd hdvd))]

/-- The chunks of any range can be padded. -/
theorem pads_of_chunks {chunks : Index}
    (hchunks : chunks.toNat =
      (range.toNat + settings.planeDim.toNat - 1) / settings.planeDim.toNat) :
    settings.Pads chunks := by
  have hroom := ceil_add_le settings.two_le_planeDim range.isLt settings.planeDim.isLt
  exact Word.roundUp_isOk settings.planeDim_pos (hchunks ▸ hroom)

end Settings

end PrefixScan

namespace PrefixScan.Cube

open Bracketing

/-- Rounding up to whole planes adds no iteration. -/
theorem mul_lt_ceil_mul_iff {planeDim cubeDim range t : Nat} (hpos : 0 < planeDim)
    (hdvd : planeDim ∣ cubeDim) :
    t * cubeDim < (range + planeDim - 1) / planeDim * planeDim ↔ t * cubeDim < range := by
  obtain ⟨planes, rfl⟩ := hdvd
  rw [Nat.mul_comm planeDim planes, ← Nat.mul_assoc, Nat.mul_lt_mul_right hpos, lt_ceil_iff hpos]

/-- The iterations over a range padded to whole planes. -/
theorem numIterations_padded (settings : Settings) {range padded : Index}
    (hpadded : padded.toNat =
      (range.toNat + settings.planeDim.toNat - 1) / settings.planeDim.toNat *
        settings.planeDim.toNat) :
    ∃ iterations, (Partition.mk padded settings.cubeDim).numIterations = .ok iterations ∧
      iterations.toNat =
        (range.toNat + settings.cubeDim.toNat - 1) / settings.cubeDim.toNat := by
  obtain ⟨iterations, hok, hval⟩ := Word.ceilDiv_isOk padded settings.cubeDim_pos
  refine ⟨iterations, hok, ?_⟩
  rw [hval, hpadded]
  refine eq_of_forall_lt_iff fun t => ?_
  rw [lt_ceil_iff settings.cubeDim_pos, lt_ceil_iff settings.cubeDim_pos,
    mul_lt_ceil_mul_iff settings.planeDim_pos settings.planeDim_dvd_cubeDim]

theorem Program.planeScan_eq (settings : Settings) (region : Region) {range : Index}
    (hpads : settings.Pads range) :
    ∃ padded iterations : Index,
      Program.planeScan settings region range = .ok (Program.flat <|
        Program.unroll iterations fun t =>
          chunkCode region t range padded ++ [.act t range (.store region)]) ∧
      padded.toNat = (range.toNat + settings.planeDim.toNat - 1) / settings.planeDim.toNat *
        settings.planeDim.toNat ∧
      iterations.toNat =
        (range.toNat + settings.cubeDim.toNat - 1) / settings.cubeDim.toNat := by
  obtain ⟨padded, hround, hpadded⟩ := hpads
  obtain ⟨iterations, hcount, hiterations⟩ := numIterations_padded settings hpadded
  refine ⟨padded, iterations, ?_, hpadded, hiterations⟩
  rw [Program.planeScan, hround]
  show (do let iterations ← (Partition.mk padded settings.cubeDim).numIterations; _) = _
  rw [hcount]
  rfl

variable {α : Type} [Inhabited α] {op : Operator α} {frame : Frame} {m : Memory α}

/-- In no iteration over `range` items an item number of the cube wraps. -/
def Frame.Unwrapped (frame : Frame) (range : Nat) : Prop :=
  ∀ t, t * frame.cubeDim < range → frame.Exact t

/-- Iterations over a range to which another one can be added do not wrap. -/
theorem Frame.unwrapped_of_fits (frame : Frame) {range : Nat}
    (hfit : range + frame.cubeDim ≤ 2 ^ 32) : frame.Unwrapped range := by
  intro t ht
  unfold Exact
  omega

/-- Iterations whose slots fit the word space do not wrap. -/
theorem Frame.unwrapped_of_slots (frame : Frame) {range : Nat}
    (hslots : (range + frame.cubeDim - 1) / frame.cubeDim * frame.cubeDim ≤ 2 ^ 32) :
    frame.Unwrapped range := by
  intro t ht
  have hiteration := (lt_ceil_iff frame.cubeDim_pos).2 ht
  have hnext : (t + 1) * frame.cubeDim ≤ (range + frame.cubeDim - 1) / frame.cubeDim * frame.cubeDim :=
    Nat.mul_le_mul_right _ hiteration
  rw [Nat.succ_mul] at hnext
  exact Nat.le_trans hnext hslots

theorem Frame.Unwrapped.mono {short long : Nat} (h : frame.Unwrapped long) (hle : short ≤ long) :
    frame.Unwrapped short := fun t ht => h t (Nat.lt_of_lt_of_le ht hle)

theorem Frame.Unwrapped.exact {range t : Nat} (h : frame.Unwrapped range)
    (ht : t < (range + frame.cubeDim - 1) / frame.cubeDim) : frame.Exact t :=
  h t ((lt_ceil_iff frame.cubeDim_pos).1 ht)

/-- The chunk of an item starts no earlier than the iteration of the item. -/
theorem Frame.le_chunkStart (frame : Frame) {t i : Nat} (h : t * frame.cubeDim ≤ i) :
    t * frame.cubeDim ≤ i / frame.planeDim * frame.planeDim := by
  have hdvd : frame.planeDim ∣ t * frame.cubeDim :=
    Nat.dvd_mul_left_of_dvd frame.settings.planeDim_dvd_cubeDim t
  obtain ⟨chunks, hchunks⟩ := hdvd
  rw [hchunks, Nat.mul_comm] at h ⊢
  exact Nat.mul_le_mul_right _ ((Nat.le_div_iff_mul_le frame.planeDim_pos).2 h)

/-- A plane scan of `range` items of a region after `n` iterations. -/
structure PlaneScannedTo (op : Operator α) (frame : Frame) (m : Memory α) (region : Region)
    (range n : Nat) (m' : Memory α) : Prop where
  holds : ∀ cell, m'.Holds cell ↔ m.Holds cell
  items : ∀ i < range, m'.read (frame.place i region) =
    if i < n * frame.cubeDim then
      (chain (i % frame.planeDim)).eval op.combine fun j =>
        m.read (frame.place (i / frame.planeDim * frame.planeDim + j) region)
    else m.read (frame.place i region)
  others : ∀ cell, (∀ unit, cell ≠ .value unit) → (∀ i < range, cell ≠ frame.place i region) →
    m'.read cell = m.read cell

theorem PlaneScannedTo.step {region : Region} {t : Nat} (ht : frame.Exact t)
    {range padded : Index} (hreach : frame.Reaches range.toNat region)
    (hpadded : range.toNat ≤ padded.toNat)
    (hvalue : ∀ unit < frame.cubeDim, m.Holds (.value unit))
    (hregion : ∀ i < range.toNat, m.Holds (frame.place i region)) {m' : Memory α}
    (h : PlaneScannedTo op frame m region range.toNat t m') :
    PlaneScannedTo op frame m region range.toNat (t + 1)
      (runCode op frame m' (chunkCode region (BitVec.ofNat 32 t) range padded ++
        [.act (BitVec.ofNat 32 t) range (.store region)])) := by
  rw [runCode_append]
  let scanned := runCode op frame m' (chunkCode region (BitVec.ofNat 32 t) range padded)
  have hheld : ∀ cell, scanned.Holds cell ↔ m.Holds cell := fun cell =>
    (holds_runCode _ m' cell).trans (h.holds cell)
  refine ⟨fun cell => (holds_runCode _ scanned cell).trans (hheld cell), ?_, ?_⟩
  · intro i hi
    show (Instr.run op frame scanned _).read _ = _
    rw [Instr.read_place_store ht hreach hi ((hheld _).2 (hregion i hi))]
    by_cases hvisit : frame.Visits t i
    · have hitem : t * frame.cubeDim + (i - t * frame.cubeDim) = i := Nat.add_sub_of_le hvisit.1
      have hstart := frame.le_chunkStart hvisit.1
      have hsplit := Nat.div_add_mod' i frame.planeDim
      rw [if_pos hvisit, if_pos hvisit.lt_succ_mul,
        read_value_chunkCode ht hreach (fun unit hunit => (h.holds _).2 (hvalue unit hunit))
          hvisit.unit_lt (by omega), hitem]
      apply eval_congr
      intro j hj
      rw [items_chain, List.mem_range] at hj
      rw [Frame.items, if_pos (by omega), h.items _ (by omega), if_neg (by omega)]
    · rw [if_neg hvisit, read_chunkCode_of_ne (frame.place_ne_value i region), h.items i hi]
      simp only [Frame.lt_succ_mul_iff hvisit]
  · intro cell hcell hplace
    show (Instr.run op frame scanned _).read cell = _
    rw [Instr.read_store_of_ne hreach hplace, read_chunkCode_of_ne hcell]
    exact h.others cell hcell hplace

/-- A plane scan leaves each item of its range with the chain of the items of its chunk up to it. -/
theorem planeScan_run {region : Region} {range : Index} {program : Program}
    (hprogram : Program.planeScan frame.settings region range = .ok program)
    (hpads : frame.settings.Pads range) (hwords : frame.Unwrapped range.toNat)
    (hreach : frame.Reaches range.toNat region)
    (hvalue : ∀ unit < frame.cubeDim, m.Holds (.value unit))
    (hregion : ∀ i < range.toNat, m.Holds (frame.place i region)) :
    PlaneScannedTo op frame m region range.toNat
      ((range.toNat + frame.cubeDim - 1) / frame.cubeDim) (runCode op frame m program.code) := by
  obtain ⟨padded, iterations, hcode, hpadded, hiterations⟩ :=
    Program.planeScan_eq frame.settings region hpads
  rw [hcode] at hprogram
  cases hprogram
  rw [← hiterations]
  show PlaneScannedTo op frame m region range.toNat iterations.toNat
    (runCode op frame m (Program.unroll iterations fun t =>
      chunkCode region t range padded ++ [.act t range (.store region)]))
  apply runCode_unroll
  · exact ⟨fun _ => Iff.rfl, fun i _ => by simp, fun _ _ _ => rfl⟩
  · intro t ht m' hm'
    rw [hiterations] at ht
    have hexact := hwords.exact ht
    have hle : range.toNat ≤ padded.toNat := hpadded ▸ le_ceil_mul frame.planeDim_pos
    exact hm'.step hexact hreach hle hvalue hregion

end PrefixScan.Cube
