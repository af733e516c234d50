import PrefixScan.Config.Basic
import PrefixScan.Toml.Document

/-!
# Configuration documents

A configuration is written as a TOML document with the integers `granularity` and `cube_dim` and the
table `profiling`, which holds the boolean `enabled`. Whatever is missing takes its default, and
unknown keys are ignored. The profiling table may also be given as an array, whose first item is
`enabled`, and a date or time stands for a table without `enabled`.

## Main definitions

* `Config.ofTable` — the configuration that a table describes.
* `Config.ofDocument` — the configuration that a document describes.
* `Config.toDocument` — the document of a configuration.
-/

namespace PrefixScan.Config

open Toml (Table Value)

/-- Why a document describes no configuration. -/
inductive DocumentDefect
  /-- The document is no valid TOML. -/
  | invalid
  /-- The value of a field has the wrong type or is out of range. -/
  | field (name : String)
deriving DecidableEq, Repr

/-- The text of a document defect. -/
def DocumentDefect.reason : DocumentDefect → String
  | .invalid => "invalid TOML document"
  | .field name => "invalid value for " ++ name

/-! ## Fields -/

/-- A count: an integer that fits 32 bits. -/
def countOf? : Value → Option Index
  | .integer n =>
    let word := BitVec.ofInt 32 n
    if word.toNat = n then some word else none
  | _ => none

/-- A switch: a boolean. -/
def switchOf? : Value → Option Bool
  | .boolean flag => some flag
  | _ => none

/-- A value that need not be there. -/
def orDefault {β : Type} (otherwise : β) (read : Value → Option β) : Option Value → Option β
  | none => some otherwise
  | some value => read value

/-- The profiling switch in the value of `profiling`. -/
def profilingOf? : Value → Option Bool
  | .table _ entries => orDefault false switchOf? (Table.get? entries "enabled")
  | .array _ items => orDefault false switchOf? items.head?
  | .datetime _ => some false
  | _ => none

/-- The field of a table under a key, or the defect that names it. -/
def field {β : Type} (table : Table) (key : String) (otherwise : β) (read : Value → Option β) :
    Except DocumentDefect β :=
  match orDefault otherwise read (table.get? key) with
  | some x => .ok x
  | none => .error (.field key)

/-! ## Documents -/

/-- The configuration that a table describes. -/
def ofTable (table : Table) : Except DocumentDefect Config := do
  let granularity ← field table "granularity" standard.granularity countOf?
  let cubeDim ← field table "cube_dim" standard.cubeDim countOf?
  let profiling ← field table "profiling" standard.profiling profilingOf?
  return ⟨granularity, cubeDim, profiling⟩

/-- The configuration that a document describes. -/
def ofDocument (document : String) : Except DocumentDefect Config :=
  match Toml.parse document with
  | none => .error .invalid
  | some table => ofTable table

/-- The document of a configuration: two integers, an empty line and the profiling table. -/
def toDocument (config : Config) : String :=
  "granularity = " ++ Text.word config.granularity ++ "\n" ++
    "cube_dim = " ++ Text.word config.cubeDim ++ "\n" ++
    "\n[profiling]\nenabled = " ++ toString config.profiling ++ "\n"

end PrefixScan.Config
