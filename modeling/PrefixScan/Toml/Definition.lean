import PrefixScan.Toml.Value

/-!
# Definitions in TOML tables

The statements of a document define tables and keys, and nothing may be defined twice. A header
names a table, on the way to it absent tables are implied. A dotted key defines the tables on its
way; it may pass through tables that were implied by headers, but it defines keys only in tables
that dotted keys made. A table in braces and an array in brackets are complete. On the way to a
table, an array of tables stands for its last table.

Each function returns the table with the definition added, or nothing if the format forbids it.

## Main definitions

* `Toml.Table.define` — a key, possibly dotted, with its value.
* `Toml.Table.within` — a definition in the table that a header names.
* `Toml.Table.declare` — a table header.
* `Toml.Table.declareNext` — a header of an array of tables.
-/

namespace PrefixScan.Toml

namespace Value

/-- The entries that a header reaches through a value, and the value with other entries there. -/
def throughHeader : Value → Option (Table × (Table → Value))
  | .table .inline _ => none
  | .table origin entries => some (entries, .table origin)
  | .array true items =>
    match items.getLast? with
    | some (.table origin entries) =>
      some (entries, fun entries => .array true (items.dropLast ++ [.table origin entries]))
    | _ => none
  | _ => none

/-- The entries that a dotted key reaches through a value, and the value with other entries there.
`final` says whether the key itself is to be defined there. -/
def throughDotted (final : Bool) : Value → Option (Table × (Table → Value))
  | .table .dotted entries => some (entries, .table .dotted)
  | .table .implied entries => if final then none else some (entries, .table .implied)
  | .array true items => if final then none else throughHeader (.array true items)
  | _ => none

end Value

namespace Table

/-- The table with the dotted key `path.key` defined as `value`. -/
def define (key : String) (value : Value) : (path : List String) → Table → Option Table
  | [], table =>
    match table.get? key with
    | some _ => none
    | none => some (table.push key value)
  | part :: path, table =>
    match table.get? part with
    | none =>
      match define key value path [] with
      | some entries => some (table.push part (.table .dotted entries))
      | none => none
    | some child =>
      match child.throughDotted path.isEmpty with
      | some (entries, rebuild) =>
        match define key value path entries with
        | some entries => some (table.set part (rebuild entries))
        | none => none
      | none => none

/-- The table with a change to the table that the header `path` names. -/
def within (change : Table → Option Table) : (path : List String) → Table → Option Table
  | [], table => change table
  | part :: path, table =>
    match table.get? part with
    | none =>
      match within change path [] with
      | some entries => some (table.push part (.table .implied entries))
      | none => none
    | some child =>
      match child.throughHeader with
      | some (entries, rebuild) =>
        match within change path entries with
        | some entries => some (table.set part (rebuild entries))
        | none => none
      | none => none

/-- The table with a header for `key`: a new table, or one that was only implied. -/
def declare (key : String) (table : Table) : Option Table :=
  match table.get? key with
  | none => some (table.push key (.table .header []))
  | some (.table .implied entries) => some (table.set key (.table .header entries))
  | some _ => none

/-- The table with one more table in the array of tables `key`. -/
def declareNext (key : String) (table : Table) : Option Table :=
  match table.get? key with
  | none => some (table.push key (.array true [.table .header []]))
  | some (.array true items) =>
    some (table.set key (.array true (items ++ [.table .header []])))
  | some _ => none

end Table

end PrefixScan.Toml
