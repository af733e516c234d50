import PrefixScan.Error
import PrefixScan.Text.Record

/-!
# Cascade layout

The hierarchical scan of a buffer works in blocks of `granularity` elements. Level 0 of the cascade
holds one total per block of the buffer, level 1 one total per block of level 0, and so on up to a
level with a single total. A level's buffer is padded to whole blocks, so that the pass over it
never reads past its end.

## Main definitions

* `Cascade.Layout.ofLength` — the layout for a buffer length and a granularity.
* `Cascade.Layout.sourceLength` — the length of the buffer reduced into a level.
* `Cascade.Layout.validate` — the check that a layout belongs to a length and a granularity.
-/

namespace PrefixScan.Cascade

/-- One intermediate buffer. -/
structure Level where
  /-- Number of block totals. -/
  numElems : Size
  /-- Allocated length, a multiple of the granularity. -/
  length : Size
deriving DecidableEq, Repr

/-- Sizes of the intermediate buffers of a hierarchical scan, finest level first. -/
structure Layout where
  /-- Length of the scanned buffer. -/
  inputLength : Size
  granularity : Size
  levels : List Level
deriving DecidableEq, Repr

namespace Layout

/-- Levels above `count` elements. One element needs no level, and blocks of fewer than two
elements shrink nothing, so they have none either. -/
def levelsAbove (granularity count : Size) : Except Fault (List Level) :=
  if h : 1 < count ∧ 1 < granularity then
    match hb : Word.ceilDiv count granularity with
    | .error fault => .error fault
    | .ok blocks =>
      have : blocks.toNat < count.toNat := by
        have hcount := BitVec.lt_def.mp h.1
        have hgran := BitVec.lt_def.mp h.2
        have : (1 : Size).toNat = 1 := rfl
        rw [Word.ceilDiv_eq_ok hb]
        exact Word.ceilQuot_lt (by omega) (by omega)
      match Word.roundUp blocks granularity with
      | .error fault => .error fault
      | .ok length =>
        match levelsAbove granularity blocks with
        | .error fault => .error fault
        | .ok rest => .ok (⟨blocks, length⟩ :: rest)
  else .ok []
termination_by count.toNat

/-- The layout of a cascade for a buffer of `length` elements. -/
def ofLength (length granularity : Size) : Except Fault Layout := do
  let levels ← levelsAbove granularity length
  return ⟨length, granularity, levels⟩

variable (layout : Layout)

/-- Number of intermediate buffers. -/
def numLevels : Nat := layout.levels.length

/-- The sizes of a level. -/
def level (k : Nat) : Except Fault Level :=
  match layout.levels[k]? with
  | some level => .ok level
  | none => .error (.indexOutOfBounds layout.levels.length k)

/-- Length of the buffer reduced into level `k`: the scanned buffer for level 0, the level before
otherwise. -/
def sourceLength : (k : Nat) → Except Fault Size
  | 0 => .ok layout.inputLength
  | k + 1 => do
    let level ← layout.level k
    return level.length

/-- Checks that the cascade was built to scan `length` elements with the given granularity. -/
def validate (length : Size) (granularity : Index) : Except ScanError Unit :=
  let expected := (length, granularity.setWidth 64)
  let actual := (layout.inputLength, layout.granularity)
  if expected = actual then .ok () else .error (.cascadeMismatch expected actual)

/-- The layout as a record. -/
def describe : String :=
  Text.record "CascadeLayout" [
    ("len", Text.word layout.inputLength),
    ("granularity", Text.word layout.granularity),
    ("levels", Text.list <| layout.levels.map fun level =>
      Text.record "CascadeLevel" [
        ("num_elems", Text.word level.numElems), ("len", Text.word level.length)])]

end Layout

end PrefixScan.Cascade
