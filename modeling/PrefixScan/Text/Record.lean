/-!
# Record text

Values are described in logs and diagnostics as records: `Name { field: value, … }` and
`[value, …]`. An empty list is `[]`.

## Main definitions

* `Text.record` — a record with named fields.
* `Text.list` — a list of values.
-/

namespace PrefixScan.Text

/-- A list of values, already written. -/
def list (items : List String) : String := "[" ++ String.intercalate ", " items ++ "]"

/-- A record: its name, then its fields with their values, already written. -/
def record (name : String) (fields : List (String × String)) : String :=
  let written := fields.map fun (field, value) => field ++ ": " ++ value
  name ++ " \x7b " ++ String.intercalate ", " written ++ " \x7d"

/-- The decimal digits of a word. -/
def word {w : Nat} (x : BitVec w) : String := toString x.toNat

end PrefixScan.Text
