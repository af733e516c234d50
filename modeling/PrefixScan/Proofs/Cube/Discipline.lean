import PrefixScan.Proofs.Cube.Uniform

/-!
# Memory discipline of a cube scan

A level of a cube scan is scanned over its range padded to whole planes and stored over the range itself, with
iteration counts and guards of their own, and the chunk totals of a level are the items of the next one.  The
kernels check no bounds and their private and shared memories start with anything in them.  So every access
has to be within the lengths that the program asks for, and every value has to be assigned before it is read:
a private one by its own unit, a shared one in front of a barrier.

## Main definitions

* `Allocated` — the cells of a scan.
* `Assigns`, `Defined` — code assigns a cell, and did so in time for a unit that reads it.
* `Disciplined` — what holds for all accesses of a scan.

## Main results

* `Program.Nested.accesses`, `Program.Nested.readsDefined` — the accesses of a scan at every recursion level.
* `Program.cubeScan_disciplined` — cube scans of any range that leaves room for an iteration.
-/

namespace PrefixScan.Cube

/-- The cells of a scan: the items of its range, the shared memories and the kept values of its levels, each
within the length that the program asks for, and the working values of the units. -/
inductive Allocated (frame : Frame) (region : Region) (level : Nat) (range : Index) (program : Program) :
    Cell → Prop
  | item {item : Index} (hitem : item < range) :
      Allocated frame region level range program (frame.cell item region)
  | shared {k i : Nat} {len : Index} (hk : program.shared[k]? = some len) (hi : i < len.toNat) :
      Allocated frame region level range program (.shared (level + k) i)
  | kept {k unit t : Nat} {count : Index} (hk : program.kept[k]? = some count)
      (hunit : unit < frame.cubeDim) (ht : t < count.toNat) :
      Allocated frame region level range program (.kept (level + k) unit t)
  | value {unit : Nat} (hunit : unit < frame.cubeDim) :
      Allocated frame region level range program (.value unit)

/-- A unit assigns the cell in the code. -/
def Assigns (frame : Frame) (code : List Instr) (unit : Nat) (cell : Cell) : Prop :=
  ∃ instr ∈ code, ∃ move ∈ instr.unitMoves frame unit, move.target = cell

/-- A unit that reads the cell after some code reads what was assigned: an item of the range, a value that the
unit kept itself, the working value of a unit of its plane, or a total that a unit posted in front of a
barrier. -/
inductive Defined (frame : Frame) (region : Region) (range : Index) (before : List Instr) (unit : Nat) :
    Cell → Prop
  | item {item : Index} (hitem : item < range) :
      Defined frame region range before unit (frame.cell item region)
  | kept {level t : Nat} (h : Assigns frame before unit (.kept level unit t)) :
      Defined frame region range before unit (.kept level unit t)
  | value {other : Nat} (hplane : other / frame.planeDim = unit / frame.planeDim)
      (h : Assigns frame before other (.value other)) :
      Defined frame region range before unit (.value other)
  | shared {level i other : Nat} {first second : List Instr}
      (hbefore : before = first ++ .barrier :: second) (hother : other < frame.cubeDim)
      (h : Assigns frame first other (.shared level i)) :
      Defined frame region range before unit (.shared level i)

/-- The accesses of a scan of `range` items of a region by a cube, from a recursion level on. -/
structure Disciplined (frame : Frame) (region : Region) (level : Nat) (range : Index) (program : Program) :
    Prop where
  /-- A level above the last one has a total for every chunk of its range, and keeps a value per iteration. -/
  lengths : program.kept.length = program.shared.length ∧ ∀ (k : Nat) (chunks iterations : Index),
    program.shared[k]? = some chunks → program.kept[k]? = some iterations →
      ∃ r : Index, (range :: program.shared)[k]? = some r ∧ chunks.toNat = r.toNat ⌈/⌉ frame.planeDim ∧
        iterations.toNat = r.toNat ⌈/⌉ frame.cubeDim
  /-- Every access is to a cell of the scan. -/
  inside : ∀ instr ∈ program.code, ∀ unit < frame.cubeDim, ∀ move ∈ instr.unitMoves frame unit,
    ∀ cell ∈ move.target :: move.reads, Allocated frame region level range program cell
  /-- The total that is folded into an item is that of the chunk before its own. -/
  preceding : ∀ k t bound, Instr.act t bound (.prepend k) ∈ program.code → ∀ unit ∈ frame.lanes t bound,
    ∀ move ∈ (Action.prepend k).moves frame t (frame.itemOf t unit) unit, ∃ chunk,
      move.reads = [.shared k chunk, .value unit] ∧
        chunk + 1 = (frame.itemOf t unit).toNat / frame.planeDim
  /-- What is read was assigned before. -/
  assigned : ∀ before instr after, program.code = before ++ instr :: after → ∀ unit < frame.cubeDim,
    ∀ move ∈ instr.unitMoves frame unit, ∀ cell ∈ move.reads, Defined frame region range before unit cell

/-! ## Accesses of instructions -/

/-- What holds for the units and the cells that they read. -/
def Instr.Reads (frame : Frame) (P : Nat → Cell → Prop) (instr : Instr) : Prop :=
  ∀ unit < frame.cubeDim, ∀ move ∈ instr.unitMoves frame unit, ∀ cell ∈ move.reads, P unit cell

/-- What holds for the cells that units write or read. -/
def Instr.Accesses (frame : Frame) (A : Cell → Prop) (instr : Instr) : Prop :=
  ∀ unit < frame.cubeDim, ∀ move ∈ instr.unitMoves frame unit, ∀ cell ∈ move.target :: move.reads, A cell

/-- What has to hold for the cells of an action, apart from working values. -/
def Action.Needs (frame : Frame) (A : Cell → Prop) (iteration item : Index) (unit : Nat) : Action → Prop
  | .pad => True
  | .load region | .store region => A (frame.cell item region)
  | .keep level | .recall level => A (.kept level unit iteration.toNat)
  | .post level => item % frame.settings.planeDim = frame.settings.planeDim - 1 →
      A (.shared level (item / frame.settings.planeDim).toNat)
  | .prepend level => frame.settings.planeDim ≤ item →
      A (.shared level (item / frame.settings.planeDim - 1).toNat)
  | .prependCarry => A (.carry unit)

section Instr

variable {frame : Frame} {P : Nat → Cell → Prop} {iteration bound : Index}

theorem Instr.reads_act {action : Action} (h : ∀ unit ∈ frame.lanes iteration bound,
    ∀ move ∈ action.moves frame iteration (frame.itemOf iteration unit) unit,
      ∀ cell ∈ move.reads, P unit cell) : (Instr.act iteration bound action).Reads frame P := by
  intro unit _ move hmove
  obtain ⟨hlane, hmove⟩ := mem_unitMoves_act.1 hmove
  exact h unit hlane move hmove

/-- A plane scan reads the working values of units of the plane that take part. -/
theorem Instr.reads_scanPlane (h : ∀ unit < frame.cubeDim, ∀ other ∈ frame.lanes iteration bound,
    other / frame.planeDim = unit / frame.planeDim → P unit (.value other)) :
    (Instr.scanPlane iteration bound).Reads frame P := by
  intro unit hunit move hmove cell hcell
  have hplane : unit / frame.planeDim < frame.numPlanes :=
    Nat.div_lt_of_lt_mul (Nat.mul_comm _ _ ▸ frame.numPlanes_mul ▸ hunit)
  simp only [unitMoves, List.mem_filterMap] at hmove
  obtain ⟨⟨previous, next⟩, hpair, hmove⟩ := hmove
  obtain ⟨hprevious, hnext⟩ := List.of_mem_zip hpair
  have hactive {other : Nat} (hother : other ∈ frame.active (unit / frame.planeDim) iteration bound) :
      P unit (.value other) := by
    obtain ⟨hunits, hlane⟩ := (Frame.mem_active hplane).1 hother
    exact h unit hunit other hlane (Frame.mem_units.1 hunits)
  split at hmove
  · rename_i hsame
    obtain rfl : next = unit := hsame
    obtain rfl := Option.some.inj hmove
    simp only [Move.reads, Operand.reads, List.mem_cons, List.not_mem_nil, or_false] at hcell
    obtain rfl | rfl := hcell
    · exact hactive hprevious
    · exact hactive (List.mem_of_mem_tail hnext)
  · cases hmove

theorem Instr.reads_barrier : Instr.barrier.Reads frame P := fun _ _ _ h => by cases h

variable {A : Cell → Prop} (hvalue : ∀ unit < frame.cubeDim, A (.value unit))
include hvalue

theorem Instr.accesses_act {action : Action} (h : ∀ unit ∈ frame.lanes iteration bound,
    action.Needs frame A iteration (frame.itemOf iteration unit) unit) :
    (Instr.act iteration bound action).Accesses frame A := by
  intro unit hunit move hmove
  obtain ⟨hlane, hmove⟩ := mem_unitMoves_act.1 hmove
  have hneeds := h unit hlane
  have hown := hvalue unit hunit
  cases action with
  | post level =>
      simp only [Action.moves] at hmove
      split at hmove
      · next hlast =>
          obtain rfl := List.mem_singleton.1 hmove
          exact List.forall_mem_cons.2 ⟨hneeds hlast, List.forall_mem_singleton.2 hown⟩
      · cases hmove
  | prepend level =>
      simp only [Action.moves] at hmove
      split at hmove
      · next hpast =>
          obtain rfl := List.mem_singleton.1 hmove
          exact List.forall_mem_cons.2 ⟨hown, List.forall_mem_cons.2
            ⟨hneeds hpast, List.forall_mem_singleton.2 hown⟩⟩
      · cases hmove
  | _ =>
      obtain rfl := List.mem_singleton.1 hmove
      simp_all [Move.reads, Operand.reads, Action.Needs]

theorem Instr.accesses_scanPlane : (Instr.scanPlane iteration bound).Accesses frame A := by
  intro unit hunit move hmove cell hcell
  obtain rfl | hcell := List.mem_cons.1 hcell
  · obtain ⟨_, _, rfl⟩ := of_mem_unitMoves_scanPlane hmove
    exact hvalue unit hunit
  · have hreads : (Instr.scanPlane iteration bound).Reads frame fun _ cell => A cell :=
      reads_scanPlane fun _ _ other hlane _ => hvalue other (frame.mem_lanes.1 hlane).1
    exact hreads unit hunit move hmove cell hcell

omit hvalue in
theorem Instr.accesses_barrier : Instr.barrier.Accesses frame A := fun _ _ _ h => by cases h

end Instr

/-! ## Reads of code -/

section Code

variable {frame : Frame} {region : Region} {range : Index} {before after code code' : List Instr} {unit : Nat}
  {cell : Cell}

theorem Assigns.mono (h : Assigns frame code unit cell) (hsub : code ⊆ code') :
    Assigns frame code' unit cell :=
  h.imp fun _ => And.imp_left (hsub ·)

/-- The units that take part in an action assign its target. -/
theorem assigns_act {iteration bound : Index} {action : Action} {target : Nat → Cell}
    (hmem : .act iteration bound action ∈ code)
    (htarget : ∀ item unit, target unit ∈ (action.moves frame iteration item unit).map Move.target) :
    ∀ unit ∈ frame.lanes iteration bound, Assigns frame code unit (target unit) := by
  intro unit hlane
  obtain ⟨move, hmove, heq⟩ := List.mem_map.1 (htarget (frame.itemOf iteration unit) unit)
  exact ⟨_, hmem, move, Instr.mem_unitMoves_act.2 ⟨hlane, hmove⟩, heq⟩

/-- What was assigned stays assigned, whatever else is run. -/
theorem Defined.mono {before' : List Instr} (h : Defined frame region range before unit cell)
    (hsub : before.Sublist before') : Defined frame region range before' unit cell := by
  cases h with
  | item hitem => exact .item hitem
  | kept h => exact .kept (h.mono hsub.subset)
  | value hplane h => exact .value hplane (h.mono hsub.subset)
  | shared hbefore hother h =>
      subst hbefore
      obtain ⟨first', rest, rfl, hfirst, hrest⟩ := List.append_sublist_iff.1 hsub
      obtain ⟨front, back, rfl, hmem, -⟩ := List.cons_sublist_iff.1 hrest
      obtain ⟨left, right, rfl⟩ := List.append_of_mem hmem
      have hsplit : first' ++ (left ++ .barrier :: right ++ back) =
          (first' ++ left) ++ .barrier :: (right ++ back) := by simp
      exact .shared hsplit hother (h.mono fun _ hinstr => List.mem_append_left _ (hfirst.subset hinstr))

/-- What is read by the code, run after other code, was assigned. -/
def ReadsDefined (frame : Frame) (region : Region) (range : Index) (before code : List Instr) : Prop :=
  ∀ front instr back, code = front ++ instr :: back →
    instr.Reads frame (Defined frame region range (before ++ front))

theorem readsDefined_nil : ReadsDefined frame region range before [] := by
  intro front instr back h
  simp at h

theorem readsDefined_append (hcode : ReadsDefined frame region range before code)
    (hcode' : ReadsDefined frame region range (before ++ code) code') :
    ReadsDefined frame region range before (code ++ code') := by
  intro front instr back h
  obtain ⟨rest, rfl, hrest⟩ | ⟨rest, rfl, hrest⟩ := List.append_eq_append_iff.1 h
  · rw [← List.append_assoc]
    exact hcode' rest instr back hrest
  · cases rest with
    | nil =>
        have hinstr := hcode' [] instr back hrest.symm
        rwa [List.append_nil, List.append_nil] at hinstr
    | cons first rest =>
        obtain ⟨rfl, rfl⟩ := List.cons.inj hrest
        exact hcode front instr rest rfl

theorem readsDefined_cons {instr : Instr} (hinstr : instr.Reads frame (Defined frame region range before))
    (hcode : ReadsDefined frame region range (before ++ [instr]) code) :
    ReadsDefined frame region range before (instr :: code) := by
  refine readsDefined_append (fun front first back h => ?_) hcode
  obtain ⟨rfl, hone⟩ | ⟨_, -, hnone⟩ := List.cons_eq_append_iff.1 h
  · obtain ⟨rfl, rfl⟩ := List.cons.inj hone
    rwa [List.append_nil]
  · simp at hnone

theorem ReadsDefined.mono {before' : List Instr} (h : ReadsDefined frame region range before code)
    (hsub : before.Sublist before') : ReadsDefined frame region range before' code :=
  fun front instr back hcode unit hunit move hmove cell hcell =>
    (h front instr back hcode unit hunit move hmove cell hcell).mono (hsub.append_right front)

/-- Iterations may rely on what was assigned before all of them. -/
theorem readsDefined_flatMap {body : Nat → List Instr} {l : List Nat}
    (h : ∀ t ∈ l, ReadsDefined frame region range before (body t)) :
    ReadsDefined frame region range before (l.flatMap body) := by
  induction l generalizing before with
  | nil => exact readsDefined_nil
  | cons t l ih =>
      rw [List.flatMap_cons]
      refine readsDefined_append (h t (List.mem_cons_self ..)) (ih fun u hu => ?_)
      exact (h u (List.mem_cons_of_mem _ hu)).mono (List.sublist_append_left ..)

end Code

/-! ## Phases -/

section Phases

variable {frame : Frame} {region : Region} {level t : Nat} {range padded : Index} {before : List Instr}

/-- A unit that takes part in an iteration over a range takes part over a longer one. -/
theorem Frame.lanes_mono {iteration short long : Index} (hle : short ≤ long) {unit : Nat}
    (hlane : unit ∈ frame.lanes iteration short) : unit ∈ frame.lanes iteration long := by
  rw [Frame.mem_lanes] at hlane ⊢
  exact ⟨hlane.1, BitVec.lt_def.2 (Nat.lt_of_lt_of_le (BitVec.lt_def.1 hlane.2) (BitVec.le_def.1 hle))⟩

/-- An action that reads nothing but the working value of its unit reads what was assigned, if the units that
take part took a value before. -/
theorem Instr.reads_value {iteration bound : Index} {action : Action}
    (hreads : ∀ item unit, ∀ move ∈ action.moves frame iteration item unit, move.reads = [.value unit])
    (hassigns : ∀ unit ∈ frame.lanes iteration bound, Assigns frame before unit (.value unit)) :
    (Instr.act iteration bound action).Reads frame (Defined frame region range before) := by
  refine reads_act fun unit hlane move hmove cell hcell => ?_
  rw [hreads _ unit move hmove, List.mem_singleton] at hcell
  exact hcell ▸ .value rfl (hassigns unit hlane)

theorem Action.reads_keep {iteration item : Index} {unit : Nat} :
    ∀ move ∈ (Action.keep level).moves frame iteration item unit, move.reads = [.value unit] :=
  fun _ hmove => List.mem_singleton.1 hmove ▸ rfl

theorem Action.reads_post {iteration item : Index} {unit : Nat} :
    ∀ move ∈ (Action.post level).moves frame iteration item unit, move.reads = [.value unit] := by
  intro move hmove
  simp only [Action.moves] at hmove
  split at hmove
  · exact List.mem_singleton.1 hmove ▸ rfl
  · cases hmove

theorem Action.reads_store {iteration item : Index} {unit : Nat} :
    ∀ move ∈ (Action.store region).moves frame iteration item unit, move.reads = [.value unit] :=
  fun _ hmove => List.mem_singleton.1 hmove ▸ rfl

/-- The number of the chunk in front of that of an item does not wrap. -/
theorem Frame.toNat_chunkBefore {item : Index} (hpast : frame.settings.planeDim ≤ item) :
    (item / frame.settings.planeDim - 1).toNat + 1 = item.toNat / frame.planeDim := by
  have hquot : 0 < (item / frame.settings.planeDim).toNat := by
    rw [BitVec.toNat_udiv]
    exact Nat.div_pos (BitVec.le_def.1 hpast) frame.planeDim_pos
  rw [Word.toNat_sub_one hquot, Nat.sub_add_cancel hquot, BitVec.toNat_udiv]

/-- An item with chunks before its own reads the total of the last of them. -/
theorem Action.reads_prepend {iteration item : Index} {unit : Nat} :
    ∀ move ∈ (Action.prepend level).moves frame iteration item unit, ∃ chunk,
      move.reads = [.shared level chunk, .value unit] ∧ chunk + 1 = item.toNat / frame.planeDim := by
  intro move hmove
  simp only [Action.moves] at hmove
  split at hmove
  · next hpast =>
      obtain rfl := List.mem_singleton.1 hmove
      exact ⟨_, rfl, Frame.toNat_chunkBefore hpast⟩
  · cases hmove

/-- The chunks of an iteration are scanned from items of the range and padding, and so every unit of it has a
working value. -/
theorem readsDefined_chunkCode (iteration : Index) :
    ReadsDefined frame region range before (chunkCode region iteration range padded) := by
  refine readsDefined_cons ?_ (readsDefined_cons ?_ (readsDefined_cons ?_ readsDefined_nil))
  · exact Instr.reads_act fun _ _ _ hmove _ hcell => by
      rw [List.mem_singleton.1 hmove] at hcell
      cases hcell
  · exact Instr.reads_act fun unit hlane _ hmove _ hcell => by
      rw [List.mem_singleton.1 hmove] at hcell
      rw [List.mem_singleton.1 hcell]
      exact .item (frame.mem_lanes.1 hlane).2
  · refine Instr.reads_scanPlane fun unit _ other hlane hplane => .value hplane ?_
    have hpad : Instr.act iteration padded .pad ∈
        before ++ [.act iteration padded .pad] ++ [.act iteration range (.load region)] := by simp
    exact assigns_act hpad (fun _ _ => List.mem_singleton_self _) other hlane

theorem assigns_chunkCode (iteration : Index) :
    ∀ unit ∈ frame.lanes iteration padded,
      Assigns frame (before ++ chunkCode region iteration range padded) unit (.value unit) := by
  have hpad : Instr.act iteration padded .pad ∈ before ++ chunkCode region iteration range padded := by
    simp [chunkCode]
  exact assigns_act hpad fun _ _ => List.mem_singleton_self _

/-- The plane scan reads items of the range, and the values that it computes. -/
theorem readsDefined_planeScan (iterations : Index) (hle : range ≤ padded) :
    ReadsDefined frame region range before (Program.unroll iterations fun t =>
      chunkCode region t range padded ++ [.act t range (.store region)]) := by
  refine readsDefined_flatMap fun t _ => readsDefined_append (readsDefined_chunkCode _) ?_
  refine readsDefined_cons (Instr.reads_value (fun _ _ => Action.reads_store) ?_) readsDefined_nil
  exact fun unit hlane => assigns_chunkCode _ unit (Frame.lanes_mono hle hlane)

/-- The first phase reads items of the range, and the values that it computes. -/
theorem readsDefined_chunkPhase (iterations : Index) :
    ReadsDefined frame region range before (Program.chunkPhase region level range padded iterations) := by
  refine readsDefined_flatMap fun t _ => readsDefined_append (readsDefined_chunkCode _) ?_
  refine readsDefined_cons (Instr.reads_value (fun _ _ => Action.reads_keep) (assigns_chunkCode _))
    (readsDefined_cons (Instr.reads_value (fun _ _ => Action.reads_post) ?_) readsDefined_nil)
  exact fun unit hlane => (assigns_chunkCode _ unit hlane).mono (List.subset_append_left ..)

/-- A chunk in front of that of an item is one of the range. -/
theorem Frame.chunk_lt_of_succ_eq {item : Index} {chunk : Nat} (hitem : item < range)
    (hchunk : chunk + 1 = item.toNat / frame.planeDim) : chunk < range.toNat ⌈/⌉ frame.planeDim := by
  refine (lt_ceil_iff frame.planeDim_pos).2 ?_
  calc chunk * frame.planeDim
      ≤ (chunk + 1) * frame.planeDim := Nat.mul_le_mul_right _ (Nat.le_succ chunk)
    _ ≤ item.toNat := hchunk ▸ Nat.div_mul_le_self _ _
    _ < range.toNat := BitVec.lt_def.1 hitem

/-- The last phase reads what the units kept, the totals of the chunks, and the values that it computes. -/
theorem readsDefined_foldPhase {iterations : Index}
    (hkept : ∀ t < iterations.toNat, ∀ unit ∈ frame.lanes (BitVec.ofNat 32 t) range,
      Assigns frame before unit (.kept level unit (BitVec.ofNat 32 t).toNat))
    (hposted : ∀ chunk < range.toNat ⌈/⌉ frame.planeDim, ∀ unit,
      Defined frame region range before unit (.shared level chunk)) :
    ReadsDefined frame region range before (Program.foldPhase region level range iterations) := by
  refine readsDefined_flatMap fun t ht => ?_
  have ht := List.mem_range.1 ht
  have hvalue {code : List Instr} (hmem : .act (BitVec.ofNat 32 t) range (.recall level) ∈ code) :
      ∀ unit ∈ frame.lanes (BitVec.ofNat 32 t) range, Assigns frame code unit (.value unit) :=
    assigns_act hmem fun _ _ => List.mem_singleton_self _
  refine readsDefined_cons ?_ (readsDefined_cons ?_ (readsDefined_cons ?_ readsDefined_nil))
  · exact Instr.reads_act fun unit hlane _ hmove _ hcell => by
      rw [List.mem_singleton.1 hmove] at hcell
      rw [List.mem_singleton.1 hcell]
      exact .kept (hkept t ht unit hlane)
  · refine Instr.reads_act fun unit hlane move hmove cell hcell => ?_
    obtain ⟨chunk, hreads, hchunk⟩ := Action.reads_prepend move hmove
    have hlt := Frame.chunk_lt_of_succ_eq (frame.mem_lanes.1 hlane).2 hchunk
    rw [hreads] at hcell
    obtain rfl | hcell := List.mem_cons.1 hcell
    · exact (hposted chunk hlt unit).mono (List.sublist_append_left ..)
    · rw [List.mem_singleton.1 hcell]
      exact .value rfl (hvalue (by simp) unit hlane)
  · exact Instr.reads_value (fun _ _ => Action.reads_store) (hvalue (by simp))

theorem toNat_chunks {chunks : Index} (hchunks : Word.ceilDiv range frame.settings.planeDim = .ok chunks) :
    chunks.toNat = range.toNat ⌈/⌉ frame.planeDim := by
  rw [Word.ceilDiv_eq_ok hchunks]
  exact Word.toNat_ceilQuot _ _ frame.settings.planeDim_pos

theorem toNat_writes {writes : Index}
    (hwrites : (Partition.mk range frame.settings.cubeDim).numIterations = .ok writes) :
    writes.toNat = range.toNat ⌈/⌉ frame.cubeDim := by
  rw [Word.ceilDiv_eq_ok hwrites]
  exact Word.toNat_ceilQuot _ _ frame.settings.cubeDim_pos

/-- The padding is not shorter than the range. -/
theorem le_padded (hpadded : Word.roundUp range frame.settings.planeDim = .ok padded) : range ≤ padded := by
  have hvalue := Word.roundUp_eq_ok frame.settings.planeDim_pos hpadded
  exact BitVec.le_def.2 (hvalue ▸ le_ceil_mul frame.planeDim_pos)

section Settings

variable {iterations writes : Index} (hpadded : Word.roundUp range frame.settings.planeDim = .ok padded)
  (hiterations : (Partition.mk padded frame.settings.cubeDim).numIterations = .ok iterations)
include hpadded hiterations

/-- The total of every chunk of the range is posted in the first phase. -/
theorem assigns_chunk (hfit : range.toNat + frame.cubeDim ≤ 2 ^ 32) {chunk : Nat}
    (hchunk : chunk < range.toNat ⌈/⌉ frame.planeDim) :
    ∃ unit < frame.cubeDim, Assigns frame
      (Program.chunkPhase region level range padded iterations) unit (.shared level chunk) := by
  have hposted : Cell.shared level chunk ∈ (frame.settings.planeSteps range).flatMap
      fun step => (Instr.act step.1 step.2 (.post level)).targets frame := by
    rw [targets_posts hfit]
    exact List.mem_map_of_mem (List.mem_range.2 hchunk)
  rw [← planeSteps_eq hpadded hiterations] at hposted
  obtain ⟨step, hstep, htarget⟩ := List.mem_flatMap.1 hposted
  obtain ⟨t, ht, hstep⟩ := List.mem_flatMap.1 hstep
  obtain rfl := List.mem_singleton.1 hstep
  obtain ⟨plane, hplane, htarget⟩ := List.mem_flatMap.1 htarget
  obtain ⟨move, hmove, htarget⟩ := List.mem_map.1 htarget
  have hplane := List.mem_range.1 hplane
  obtain ⟨unit, hunit, hmove⟩ := (Instr.mem_moves_iff hplane).1 hmove
  refine ⟨unit, Frame.lt_cubeDim_of_mem_units hplane hunit, _, ?_, move, hmove, htarget⟩
  exact Program.mem_unroll.2 ⟨t, List.mem_range.1 ht, by simp⟩

/-- Padding adds no iteration. -/
theorem toNat_iterations : iterations.toNat = range.toNat ⌈/⌉ frame.cubeDim := by
  have hvalue := Word.roundUp_eq_ok frame.settings.planeDim_pos hpadded
  obtain ⟨count, hcount, hceil⟩ := numIterations_padded frame.settings hvalue
  obtain rfl : count = iterations := Except.ok.inj (hcount.symm.trans hiterations)
  exact hceil

/-- The values of all items that are stored in the last phase were kept in the first one, by the same units. -/
theorem assigns_kept (hwrites : (Partition.mk range frame.settings.cubeDim).numIterations = .ok writes)
    {t : Nat} (ht : t < writes.toNat) : ∀ unit ∈ frame.lanes (BitVec.ofNat 32 t) range,
      Assigns frame (Program.chunkPhase region level range padded iterations) unit
        (.kept level unit (BitVec.ofNat 32 t).toNat) := by
  have hlt : t < iterations.toNat := by
    rw [toNat_iterations hpadded hiterations, ← toNat_writes hwrites]
    exact ht
  have hkeep : Instr.act (BitVec.ofNat 32 t) padded (.keep level) ∈
      Program.chunkPhase region level range padded iterations :=
    Program.mem_unroll.2 ⟨t, hlt, by simp⟩
  intro unit hlane
  exact assigns_act hkeep (fun _ _ => List.mem_singleton_self _) unit
    (Frame.lanes_mono (le_padded hpadded) hlane)

end Settings

/-! ## Bounds -/

section Bounds

variable {A : Cell → Prop} (hvalue : ∀ unit < frame.cubeDim, A (.value unit))
  (hitem : ∀ item < range, A (frame.cell item region))
include hvalue hitem

theorem chunkCode_accesses (iteration : Index) :
    ∀ instr ∈ chunkCode region iteration range padded, instr.Accesses frame A := by
  refine List.forall_mem_cons.2 ⟨?_, List.forall_mem_cons.2 ⟨?_, List.forall_mem_singleton.2 ?_⟩⟩
  · exact Instr.accesses_act hvalue fun _ _ => trivial
  · exact Instr.accesses_act hvalue fun _ hlane => hitem _ (frame.mem_lanes.1 hlane).2
  · exact Instr.accesses_scanPlane hvalue

theorem planeScan_accesses (iterations : Index) :
    ∀ instr ∈ Program.unroll iterations fun t =>
      chunkCode region t range padded ++ [.act t range (.store region)], instr.Accesses frame A := by
  intro instr hinstr
  obtain ⟨t, -, hinstr⟩ := Program.mem_unroll.1 hinstr
  obtain hchunk | hstore := List.mem_append.1 hinstr
  · exact chunkCode_accesses hvalue hitem _ instr hchunk
  · obtain rfl := List.mem_singleton.1 hstore
    exact Instr.accesses_act hvalue fun _ hlane => hitem _ (frame.mem_lanes.1 hlane).2

theorem chunkPhase_accesses {iterations : Index}
    (hpadded : padded.toNat = range.toNat ⌈/⌉ frame.planeDim * frame.planeDim)
    (hkept : ∀ unit < frame.cubeDim, ∀ t < iterations.toNat, A (.kept level unit t))
    (hshared : ∀ chunk < range.toNat ⌈/⌉ frame.planeDim, A (.shared level chunk)) :
    ∀ instr ∈ Program.chunkPhase region level range padded iterations, instr.Accesses frame A := by
  intro instr hinstr
  obtain ⟨t, ht, hinstr⟩ := Program.mem_unroll.1 hinstr
  have hword : (BitVec.ofNat 32 t).toNat = t :=
    Nat.mod_eq_of_lt (Nat.lt_trans ht iterations.isLt)
  obtain hchunk | hinstr := List.mem_append.1 (show instr ∈ chunkCode region _ range padded ++ _ from hinstr)
  · exact chunkCode_accesses hvalue hitem _ instr hchunk
  · obtain rfl | hpost := List.mem_cons.1 hinstr
    · refine Instr.accesses_act hvalue fun unit hlane => hkept unit (frame.mem_lanes.1 hlane).1 _ ?_
      rwa [hword]
    · obtain rfl := List.mem_singleton.1 hpost
      refine Instr.accesses_act hvalue fun unit hlane _ => hshared _ ?_
      have hlt := BitVec.lt_def.1 (frame.mem_lanes.1 hlane).2
      rw [BitVec.toNat_udiv]
      exact Nat.div_lt_of_lt_mul (by rw [Nat.mul_comm, ← hpadded]; exact hlt)

theorem foldPhase_accesses {writes : Index}
    (hkept : ∀ unit < frame.cubeDim, ∀ t < writes.toNat, A (.kept level unit t))
    (hshared : ∀ chunk < range.toNat ⌈/⌉ frame.planeDim, A (.shared level chunk)) :
    ∀ instr ∈ Program.foldPhase region level range writes, instr.Accesses frame A := by
  intro instr hinstr
  obtain ⟨t, ht, hinstr⟩ := Program.mem_unroll.1 hinstr
  have hword : (BitVec.ofNat 32 t).toNat = t :=
    Nat.mod_eq_of_lt (Nat.lt_trans ht writes.isLt)
  obtain rfl | hinstr := List.mem_cons.1 hinstr
  · refine Instr.accesses_act hvalue fun unit hlane => hkept unit (frame.mem_lanes.1 hlane).1 _ ?_
    rwa [hword]
  · obtain rfl | hstore := List.mem_cons.1 hinstr
    · refine Instr.accesses_act hvalue fun unit hlane hpast => hshared _ ?_
      exact Frame.chunk_lt_of_succ_eq (frame.mem_lanes.1 hlane).2 (Frame.toNat_chunkBefore hpast)
    · obtain rfl := List.mem_singleton.1 hstore
      exact Instr.accesses_act hvalue fun _ hlane => hitem _ (frame.mem_lanes.1 hlane).2

end Bounds

end Phases

/-! ## Scans -/

section Scans

variable {frame : Frame} {region : Region} {level calls : Nat} {range chunks iterations : Index}
  {program inner : Program} {cell : Cell}

/-- The items of an inner scan are the totals of a level, and its cells are those of the levels below. -/
theorem Allocated.of_inner {code : List Instr}
    (h : Allocated frame (.shared level) (level + 1) chunks inner cell) :
    Allocated frame region level range ⟨code, chunks :: inner.shared, iterations :: inner.kept⟩ cell := by
  cases h with
  | item hitem => exact .shared (k := 0) rfl (BitVec.lt_def.1 hitem)
  | @shared k i _ hk hi =>
      rw [Nat.add_assoc, Nat.add_comm 1 k]
      exact .shared hk hi
  | @kept k unit t _ hk hunit ht =>
      rw [Nat.add_assoc, Nat.add_comm 1 k]
      exact .kept hk hunit ht
  | value hunit => exact .value hunit

/-- The items of an inner scan are defined once the totals were posted. -/
theorem Defined.of_inner {first second : List Instr} {unit : Nat}
    (hposted : ∀ chunk < chunks.toNat, ∃ other < frame.cubeDim,
      Assigns frame first other (.shared level chunk))
    (h : Defined frame (.shared level) chunks second unit cell) :
    Defined frame region range (first ++ .barrier :: second) unit cell := by
  have hsub : second.Sublist (first ++ .barrier :: second) :=
    (List.sublist_cons_self ..).trans (List.sublist_append_right ..)
  cases h with
  | item hitem =>
      obtain ⟨other, hother, h⟩ := hposted _ (BitVec.lt_def.1 hitem)
      exact .shared rfl hother h
  | kept h => exact .kept (h.mono hsub.subset)
  | value hplane h => exact .value hplane (h.mono hsub.subset)
  | shared hbefore hother h => exact (Defined.shared hbefore hother h).mono hsub

namespace Program

variable (h : Nested frame.settings region level range calls program)
include h

/-- The lengths of the memories of the levels. -/
theorem Nested.lengths : program.kept.length = program.shared.length ∧
    ∀ (k : Nat) (chunks iterations : Index), program.shared[k]? = some chunks →
      program.kept[k]? = some iterations → ∃ r : Index, (range :: program.shared)[k]? = some r ∧
        chunks.toNat = r.toNat ⌈/⌉ frame.planeDim ∧ iterations.toNat = r.toNat ⌈/⌉ frame.cubeDim := by
  induction h with
  | plane _ hscan =>
      obtain ⟨padded, _, hscan⟩ := bind_eq_ok.1 hscan
      obtain ⟨iterations, _, hscan⟩ := bind_eq_ok.1 hscan
      cases hscan
      exact ⟨rfl, fun k _ _ hk => by cases hk⟩
  | chunks _ hpadded hchunks hiterations _ _ ih =>
      refine ⟨congrArg (· + 1) ih.1, fun k len count hlen hcount => ?_⟩
      cases k with
      | zero =>
          cases hlen
          cases hcount
          exact ⟨_, rfl, toNat_chunks hchunks, toNat_iterations hpadded hiterations⟩
      | succ k => exact ih.2 k len count hlen hcount

/-- Every access of a scan is to one of its cells. -/
theorem Nested.accesses :
    ∀ instr ∈ program.code, instr.Accesses frame (Allocated frame region level range program) := by
  induction h with
  | plane _ hscan =>
      obtain ⟨padded, _, hscan⟩ := bind_eq_ok.1 hscan
      obtain ⟨iterations, _, hscan⟩ := bind_eq_ok.1 hscan
      cases hscan
      exact planeScan_accesses (fun _ => .value) (fun _ => .item) iterations
  | @chunks region level calls range padded chunks iterations writes inner _ hpadded hchunks hiterations
      hwrites _ ih =>
      have hshared (code : List Instr) : ∀ chunk < range.toNat ⌈/⌉ frame.planeDim,
          Allocated frame region level range ⟨code, chunks :: inner.shared, iterations :: inner.kept⟩
            (.shared level chunk) :=
        fun chunk hchunk => .shared (k := 0) rfl ((toNat_chunks hchunks).symm ▸ hchunk)
      have hkept (code : List Instr) : ∀ unit < frame.cubeDim, ∀ t < iterations.toNat,
          Allocated frame region level range ⟨code, chunks :: inner.shared, iterations :: inner.kept⟩
            (.kept level unit t) :=
        fun unit hunit t ht => .kept (k := 0) rfl hunit ht
      have hwrite : writes.toNat = iterations.toNat := by
        rw [toNat_writes hwrites, toNat_iterations hpadded hiterations]
      refine List.forall_mem_append.2 ⟨List.forall_mem_append.2 ⟨?_, ?_⟩, ?_⟩
      · exact chunkPhase_accesses (fun _ => .value) (fun _ => .item)
          (Word.roundUp_eq_ok frame.settings.planeDim_pos hpadded) (hkept _) (hshared _)
      · refine List.forall_mem_cons.2 ⟨Instr.accesses_barrier, fun instr hinstr => ?_⟩
        intro unit hunit move hmove cell hcell
        exact (ih instr hinstr unit hunit move hmove cell hcell).of_inner
      · refine List.forall_mem_cons.2 ⟨Instr.accesses_barrier, ?_⟩
        exact foldPhase_accesses (fun _ => .value) (fun _ => .item) (hwrite ▸ hkept _) (hshared _)

/-- What a scan reads was assigned before. -/
theorem Nested.readsDefined (hfit : range.toNat + frame.cubeDim ≤ 2 ^ 32) :
    ReadsDefined frame region range [] program.code := by
  induction h with
  | plane _ hscan =>
      obtain ⟨padded, hpadded, hscan⟩ := bind_eq_ok.1 hscan
      obtain ⟨iterations, _, hscan⟩ := bind_eq_ok.1 hscan
      cases hscan
      exact readsDefined_planeScan iterations (le_padded hpadded)
  | @chunks region level calls range padded chunks iterations writes inner hlong hpadded hchunks
      hiterations hwrites _ ih =>
      have hshorter : chunks.toNat < range.toNat := by
        have htwo := frame.settings.two_le_planeDim
        have hlt := BitVec.lt_def.1 hlong
        rw [Word.ceilDiv_eq_ok hchunks]
        exact Word.ceilQuot_lt (by omega) htwo
      have hposted : ∀ chunk < chunks.toNat, ∃ other < frame.cubeDim,
          Assigns frame (chunkPhase region level range padded iterations) other (.shared level chunk) :=
        fun chunk hchunk => assigns_chunk hpadded hiterations hfit (toNat_chunks hchunks ▸ hchunk)
      refine readsDefined_append (readsDefined_append (readsDefined_chunkPhase _)
        (readsDefined_cons Instr.reads_barrier ?_)) (readsDefined_cons Instr.reads_barrier ?_)
      · intro front instr back hsplit unit hunit move hmove cell hcell
        have hinner := ih (by omega) front instr back hsplit unit hunit move hmove cell hcell
        rw [List.append_assoc]
        exact hinner.of_inner hposted
      · refine readsDefined_foldPhase (fun t ht unit hlane => ?_) fun chunk hchunk unit => ?_
        · have hkept : Assigns frame (chunkPhase region level range padded iterations) unit
              (.kept level unit (BitVec.ofNat 32 t).toNat) :=
            assigns_kept hpadded hiterations hwrites ht unit hlane
          exact hkept.mono (by simp)
        · obtain ⟨other, hother, h⟩ := hposted chunk ((toNat_chunks hchunks).symm ▸ hchunk)
          have hsplit : [] ++ (chunkPhase region level range padded iterations ++ .barrier :: inner.code) ++
              [.barrier] = chunkPhase region level range padded iterations ++ .barrier ::
                (inner.code ++ [.barrier]) := by simp
          exact .shared hsplit hother h

end Program

/-- A cube scan accesses only cells of its own, and reads only what was assigned, at every recursion level. -/
theorem Program.cubeScan_disciplined (frame : Frame) (region : Region) (level : Nat) {range : Index}
    (hfit : range.toNat + frame.cubeDim ≤ 2 ^ 32) :
    ∃ program, Program.cubeScan frame.settings region level range = .ok program ∧
      Disciplined frame region level range program := by
  obtain ⟨program, hprogram⟩ :=
    Program.cubeScan_isOk frame.settings region level (Settings.pads_of_fits hfit)
  obtain ⟨calls, hnested⟩ := Program.nested_iff.2 hprogram
  exact ⟨program, hprogram, {
    lengths := hnested.lengths
    inside := hnested.accesses
    preceding := fun _ _ _ _ _ _ => Action.reads_prepend
    assigned := hnested.readsDefined hfit }⟩

/-- Two planes of four units, and a range of four levels with a last chunk of two items. -/
theorem Program.cubeScan_disciplined_four :
    ∃ (frame : Frame) (program : Program), frame.settings.planeDim = 4 ∧
      (510 : Index).toNat + frame.cubeDim ≤ 2 ^ 32 ∧
      Program.cubeScan frame.settings .source 0 510 = .ok program ∧ program.shared = [128, 32, 8, 2] ∧
      Disciplined frame .source 0 510 program := by
  let settings : Settings :=
    { granularity := 512, cubeDim := 8, planeDim := 4, two_le_planeDim := by decide,
      cubeDim_pos := by decide, planeDim_dvd_cubeDim := by decide,
      two_le_granularity := by decide, planeDim_dvd_granularity := by decide }
  let frame : Frame := ⟨settings, 0, 0⟩
  have hfit : (510 : Index).toNat + frame.cubeDim ≤ 2 ^ 32 := by decide
  have hlevels : Scratch.levelsOf settings.planeDim 510 = [128, 32, 8, 2] := by
    simp [settings, Scratch.levelsOf, Word.ceilQuot]
  obtain ⟨program, hprogram, hdisciplined⟩ := Program.cubeScan_disciplined frame .source 0 hfit
  have hshared : program.shared = [128, 32, 8, 2] :=
    (Program.cubeScan_shared (Settings.pads_of_fits hfit) hprogram).trans hlevels
  exact ⟨frame, program, rfl, hfit, hprogram, hshared, hdisciplined⟩

end Scans

end PrefixScan.Cube
