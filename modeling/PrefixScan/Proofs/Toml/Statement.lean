import PrefixScan.Toml.Document

/-!
# Statements of a document

A document is read in one pass, which defines each key as soon as its line was read.  It can as well be read
in two: first into the statements on its lines, each with the header that it stands under, then from the
statements into a table.  What a line says does not depend on what the lines before it defined, so both ways
agree, and edits of a document can be stated as edits of its statements.

## Main definitions

* `Toml.Statement` — a key with its value, or a header.
* `Toml.Statement.apply` — a table with a statement added.
* `Toml.statements` — the statements of a document.

## Main results

* `Toml.parse_eq` — a document defines what its statements define, one after the other.
-/

namespace PrefixScan.Toml

/-- What a line of a document defines. -/
inductive Statement
  /-- A key, possibly dotted, with its value, in the table that the header names. -/
  | pair (header path : List String) (key : String) (value : Value)
  /-- A header of a table. -/
  | table (path : List String) (key : String)
  /-- A header of one more table of an array of tables. -/
  | nextTable (path : List String) (key : String)

namespace Statement

/-- The header that the keys after a statement belong to. -/
def header : Statement → List String
  | .pair header _ _ _ => header
  | .table path key | .nextTable path key => path ++ [key]

/-- The table with a statement added. -/
def apply (root : Table) : Statement → Option Table
  | .pair header path key value => root.within (·.define key value path) header
  | .table path key => root.within (·.declare key) path
  | .nextTable path key => root.within (·.declareNext key) path

end Statement

/-- A header of one more table, after its opening brackets. -/
def nextTableStatement : Reader Statement := fun s =>
  match keyPath maxDepth s with
  | some ((path, key), ']' :: ']' :: rest) => (lineEnd rest).map (.nextTable path key, ·)
  | _ => none

/-- A header of a table, after its opening bracket. -/
def tableStatement : Reader Statement := fun s =>
  match keyPath maxDepth s with
  | some ((path, key), ']' :: rest) => (lineEnd rest).map (.table path key, ·)
  | _ => none

/-- A key with its value, below a header. -/
def pairStatement (header : List String) : Reader Statement := fun s =>
  match pair (value maxDepth) s with
  | some (((path, key), value), rest) => (lineEnd rest).map (.pair header path key value, ·)
  | none => none

/-- The statement on a line below a header, if there is one. -/
def statement (header : List String) : Reader (Option Statement) := fun s =>
  match skipBlanks s with
  | '[' :: '[' :: rest => (nextTableStatement rest).map (Prod.map some id)
  | '[' :: rest => (tableStatement rest).map (Prod.map some id)
  | s =>
    match lineEnd s with
    | some rest => some (none, rest)
    | none => (pairStatement header s).map (Prod.map some id)

/-- The statements on all lines. `fuel` bounds the number of lines. -/
def statementsFrom : (fuel : Nat) → (header : List String) → List Char → Option (List Statement)
  | _, _, [] => some []
  | 0, _, _ => none
  | fuel + 1, header, s =>
    match statement header s with
    | some (some found, rest) => (statementsFrom fuel found.header rest).map (found :: ·)
    | some (none, rest) => statementsFrom fuel header rest
    | none => none

/-- The statements of a document. A byte order mark in front of it does not count. -/
def statements (document : String) : Option (List Statement) :=
  let s := document.toList
  let s := if s.head? = some '\ufeff' then s.tail else s
  statementsFrom s.length [] s

/-! ## Reading in two steps -/

/-- What is known after a statement. -/
def State.after (state : State) (found : Statement) : Option State :=
  (found.apply state.root).map fun root => ⟨root, found.header⟩

section Line

variable (state : State) (s : List Char)

theorem arrayHeader_eq : arrayHeader state s =
    (nextTableStatement s).bind fun (found, rest) => (state.after found).map (·, rest) := by
  fun_cases nextTableStatement s with
  | case1 path key rest hname =>
      rw [arrayHeader, hname]
      cases hrest : lineEnd rest <;> cases hroot : state.root.within (·.declareNext key) path <;>
        simp [State.after, Statement.apply, Statement.header, hrest, hroot]
  | case2 hother =>
      unfold arrayHeader
      split
      · next hname => exact (hother _ _ _ hname).elim
      · rfl

theorem tableHeader_eq : tableHeader state s =
    (tableStatement s).bind fun (found, rest) => (state.after found).map (·, rest) := by
  fun_cases tableStatement s with
  | case1 path key rest hname =>
      rw [tableHeader, hname]
      cases hrest : lineEnd rest <;> cases hroot : state.root.within (·.declare key) path <;>
        simp [State.after, Statement.apply, Statement.header, hrest, hroot]
  | case2 hother =>
      unfold tableHeader
      split
      · next hname => exact (hother _ _ _ hname).elim
      · rfl

theorem keyLine_eq : keyLine state s =
    (pairStatement state.header s).bind fun (found, rest) => (state.after found).map (·, rest) := by
  fun_cases pairStatement state.header s with
  | case1 path key value rest hpair =>
      rw [keyLine, hpair]
      cases hrest : lineEnd rest <;>
        cases hroot : state.root.within (·.define key value path) state.header <;>
        simp [State.after, Statement.apply, Statement.header, hrest, hroot]
  | case2 hnone =>
      rw [keyLine, hnone]
      rfl

/-- A line is read like the statement on it. -/
theorem line_eq : line state s = (statement state.header s).bind fun
    | (some found, rest) => (state.after found).map (·, rest)
    | (none, rest) => some (state, rest) := by
  fun_cases statement state.header s with
  | case1 rest htwo =>
      rw [line, htwo, Option.bind_map]
      exact arrayHeader_eq state rest
  | case2 rest hnotTwo hone =>
      rw [line, hone, Option.bind_map]
      split
      · next t htwo => exact (hnotTwo t (List.cons.inj htwo).2).elim
      · next t _ hrest => exact (List.cons.inj hrest).2 ▸ tableHeader_eq state rest
      · next hnotOne => exact (hnotOne rest rfl).elim
  | case3 rest hnotTwo hnotOne hend =>
      unfold line
      split
      · next htwo => exact (hnotTwo _ htwo).elim
      · next hone => exact (hnotOne _ hone).elim
      · rw [hend]
        rfl
  | case4 hnotTwo hnotOne hend =>
      unfold line
      split
      · next htwo => exact (hnotTwo _ htwo).elim
      · next hone => exact (hnotOne _ hone).elim
      · rw [hend, Option.bind_map]
        exact keyLine_eq state (skipBlanks s)

end Line

/-- All lines are read like their statements. -/
theorem lines_eq (fuel : Nat) (state : State) (s : List Char) :
    lines fuel state s = (statementsFrom fuel state.header s).bind fun found =>
      found.foldlM Statement.apply state.root := by
  induction fuel generalizing state s with
  | zero => cases s <;> simp [lines, statementsFrom]
  | succ fuel ih =>
      cases s with
      | nil => simp [lines, statementsFrom]
      | cons c t =>
          simp only [lines, statementsFrom, line_eq]
          cases statement state.header (c :: t) with
          | none => rfl
          | some read =>
              obtain ⟨found, rest⟩ := read
              cases found with
              | none => exact ih state rest
              | some found =>
                  cases hroot : found.apply state.root with
                  | none => simp [State.after, hroot, Option.bind_map, Function.comp_def]
                  | some root =>
                      simp [State.after, hroot, Option.bind_map, Function.comp_def, ih]

/-- A document defines what its statements define, one after the other. -/
theorem parse_eq (document : String) :
    parse document = (statements document).bind fun found => found.foldlM Statement.apply [] :=
  lines_eq _ ⟨[], []⟩ _

end PrefixScan.Toml
