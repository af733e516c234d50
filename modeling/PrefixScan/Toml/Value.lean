/-!
# TOML values

The values of a TOML 1.0 document. A table is a list of entries with distinct keys. A table also
remembers how it was defined, since the format only lets some tables be extended later on.

## Main definitions

* `Toml.Value` — values.
* `Toml.Table` — entries by key.
* `Toml.Table.get?` — the value of a key.
-/

namespace PrefixScan.Toml

/-- A day of the calendar. -/
structure Date where
  year : Nat
  month : Nat
  day : Nat
deriving DecidableEq, Repr

/-- A time of day. -/
structure Time where
  hour : Nat
  minute : Nat
  second : Nat
  nanosecond : Nat
deriving DecidableEq, Repr

/-- Distance from universal time in minutes. -/
structure Offset where
  minutes : Int
deriving DecidableEq, Repr

/-- A date, a time of day, or both, then possibly with an offset. -/
inductive Datetime
  | date (date : Date)
  | time (time : Time)
  | moment (date : Date) (time : Time) (offset : Option Offset)
deriving DecidableEq, Repr

/-- A floating-point number as written. -/
inductive Real
  /-- The number `± digits * 10 ^ exponent`. -/
  | finite (negative : Bool) (digits : Nat) (exponent : Int)
  | infinity (negative : Bool)
  | nan
deriving DecidableEq, Repr

/-- How a table came into being. -/
inductive Origin
  /-- Written in braces; it can never be extended. -/
  | inline
  /-- Named by a header of its own. -/
  | header
  /-- Named only as part of a longer header. -/
  | implied
  /-- Named by a dotted key. -/
  | dotted
deriving DecidableEq, Repr

/-- A value of a document. -/
inductive Value
  | string (text : String)
  | integer (n : Int)
  | float (x : Real)
  | boolean (flag : Bool)
  | datetime (datetime : Datetime)
  /-- An array, written in brackets or, if `growing`, made of tables with one header each. -/
  | array (growing : Bool) (items : List Value)
  | table (origin : Origin) (entries : List (String × Value))
deriving Repr

/-- The entries of a table. -/
abbrev Table := List (String × Value)

namespace Table

/-- The value of a key. -/
def get? (table : Table) (key : String) : Option Value := table.lookup key

/-- The table with another value for a key that it has. -/
def set (table : Table) (key : String) (value : Value) : Table :=
  table.map fun entry => if entry.1 = key then (key, value) else entry

/-- The table with one more entry. -/
def push (table : Table) (key : String) (value : Value) : Table := table ++ [(key, value)]

end Table

end PrefixScan.Toml
