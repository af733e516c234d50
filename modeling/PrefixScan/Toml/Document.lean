import PrefixScan.Toml.Datetime
import PrefixScan.Toml.Definition
import PrefixScan.Toml.Number
import PrefixScan.Toml.Trivia

/-!
# TOML documents

A document is a sequence of lines, each with a key and its value, a header, or nothing. Headers say
in which table the keys after them are defined. Values nest at most 79 deep, and a dotted key has at
most 79 parts.

## Main definitions

* `Toml.value` — a value in front of other text.
* `Toml.parse` — the table that a document defines, if it is valid.
-/

namespace PrefixScan.Toml

/-- How deep values nest at most, and how many parts a dotted key has at most. -/
def maxDepth : Nat := 79

/-- A reader: what it read, and the text after it. -/
abbrev Reader (β : Type) := List Char → Option (β × List Char)

/-! ## Values that are one word -/

/-- A character of a number, a date, a time or a bare word. -/
def isWord (c : Char) : Bool := isBare c || c = '+' || c = '.' || c = ':'

/-- A boolean. -/
def boolean? (word : List Char) : Option Bool :=
  if word = ['t', 'r', 'u', 'e'] then some true
  else if word = ['f', 'a', 'l', 's', 'e'] then some false
  else none

/-- The value of a word. -/
def word? (word : List Char) : Option Value :=
  match integer? word with
  | some n => some (.integer n)
  | none =>
    match boolean? word with
    | some flag => some (.boolean flag)
    | none =>
      match real? word with
      | some x => some (.float x)
      | none => (datetime? word).map .datetime

/-- A value that is one word. A date takes a time along that follows it after one blank. -/
def scalar : Reader Value := fun s =>
  let word := s.takeWhile isWord
  let rest := s.dropWhile isWord
  match rest with
  | ' ' :: c :: after =>
    if (date? word).isSome && c.isDigit then
      let later := c :: after
      match word? (word ++ ' ' :: later.takeWhile isWord) with
      | some value => some (value, later.dropWhile isWord)
      | none => none
    else (word? word).map (·, rest)
  | _ => (word? word).map (·, rest)

/-! ## Arrays and tables in one value -/

/-- The items of an array after its bracket, up to and with the closing bracket. A comma may follow
the last item. `fuel` bounds the number of items. -/
def items (item : Reader Value) : (fuel : Nat) → Reader (List Value)
  | 0, _ => none
  | fuel + 1, s =>
    match skipTrivia s with
    | ']' :: rest => some ([], rest)
    | s =>
      match item s with
      | none => none
      | some (first, rest) =>
        match skipTrivia rest with
        | ']' :: rest => some ([first], rest)
        | ',' :: rest =>
          match items item fuel rest with
          | some (others, rest) => some (first :: others, rest)
          | none => none
        | _ => none

/-- A key, an equals sign and a value. -/
def pair (item : Reader Value) : Reader ((List String × String) × Value) := fun s =>
  match keyPath maxDepth s with
  | some (path, '=' :: rest) =>
    match item (skipBlanks rest) with
    | some (value, rest) => some ((path, value), rest)
    | none => none
  | _ => none

/-- The entries of a table in braces, up to and with the closing brace, defined in addition to
those of `table`. No comma follows the last entry. `fuel` bounds the number of entries. -/
def entries (item : Reader Value) : (fuel : Nat) → Table → Reader Table
  | 0, _, _ => none
  | fuel + 1, table, s =>
    match pair item s with
    | none => none
    | some (((path, key), value), rest) =>
      match table.define key value path with
      | none => none
      | some table =>
        match skipBlanks rest with
        | '}' :: rest => some (table, rest)
        | ',' :: rest => entries item fuel table rest
        | _ => none

/-- A table after its opening brace. -/
def inlineTable (item : Reader Value) : Reader Table := fun s =>
  match skipBlanks s with
  | '}' :: rest => some ([], rest)
  | s => entries item s.length [] s

/-- A reader of text as a reader of a string value. -/
def stringValue : Option (List Char × List Char) → Option (Value × List Char)
  | some (text, rest) => some (.string (String.ofList text), rest)
  | none => none

/-- A value in which arrays and tables nest at most `depth` deep. -/
def value : (depth : Nat) → Reader Value
  | _, '"' :: '"' :: '"' :: rest => stringValue (basicLines .text (openLine rest))
  | _, '"' :: rest => stringValue (basic rest)
  | _, '\'' :: '\'' :: '\'' :: rest => stringValue (literalLines (openLine rest))
  | _, '\'' :: rest => stringValue (literal rest)
  | 0, '[' :: _ => none
  | 0, '{' :: _ => none
  | depth + 1, '[' :: rest =>
    match items (value depth) (rest.length + 1) rest with
    | some (found, rest) => some (.array false found, rest)
    | none => none
  | depth + 1, '{' :: rest =>
    match inlineTable (value depth) rest with
    | some (found, rest) => some (.table .inline found, rest)
    | none => none
  | _, s => scalar s

/-! ## Lines -/

/-- What the lines so far have defined, and the header that the next keys belong to. -/
structure State where
  root : Table
  header : List String

/-- A header of a table, after its opening bracket. -/
def tableHeader (state : State) (s : List Char) : Option (State × List Char) :=
  match keyPath maxDepth s with
  | some ((path, key), ']' :: rest) =>
    match state.root.within (·.declare key) path, lineEnd rest with
    | some root, some rest => some (⟨root, path ++ [key]⟩, rest)
    | _, _ => none
  | _ => none

/-- A header of an array of tables, after its opening brackets. -/
def arrayHeader (state : State) (s : List Char) : Option (State × List Char) :=
  match keyPath maxDepth s with
  | some ((path, key), ']' :: ']' :: rest) =>
    match state.root.within (·.declareNext key) path, lineEnd rest with
    | some root, some rest => some (⟨root, path ++ [key]⟩, rest)
    | _, _ => none
  | _ => none

/-- A key with its value. -/
def keyLine (state : State) (s : List Char) : Option (State × List Char) :=
  match pair (value maxDepth) s with
  | some (((path, key), value), rest) =>
    match state.root.within (·.define key value path) state.header, lineEnd rest with
    | some root, some rest => some (⟨root, state.header⟩, rest)
    | _, _ => none
  | none => none

/-- One line. -/
def line (state : State) (s : List Char) : Option (State × List Char) :=
  match skipBlanks s with
  | '[' :: '[' :: rest => arrayHeader state rest
  | '[' :: rest => tableHeader state rest
  | s =>
    match lineEnd s with
    | some rest => some (state, rest)
    | none => keyLine state s

/-- All lines. `fuel` bounds their number. -/
def lines : (fuel : Nat) → State → List Char → Option Table
  | _, state, [] => some state.root
  | 0, _, _ => none
  | fuel + 1, state, s =>
    match line state s with
    | some (state, rest) => lines fuel state rest
    | none => none

/-- The table that a document defines. A byte order mark in front of it does not count. -/
def parse (document : String) : Option Table :=
  let s := document.toList
  let s := if s.head? = some '\ufeff' then s.tail else s
  lines s.length ⟨[], []⟩ s

end PrefixScan.Toml
