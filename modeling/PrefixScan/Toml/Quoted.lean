import PrefixScan.Toml.Trivia

/-!
# Strings and keys of TOML documents

A string is basic, with escapes, or literal, without; each kind exists on one line and on several.
A string on several lines is delimited by three quotes, and one or two quotes may stand inside of
it, also right before the closing three. A key is a string on one line or a bare word.

Every reader returns the text it read and what follows it.

## Main definitions

* `Toml.basic`, `Toml.basicLines`, `Toml.literal`, `Toml.literalLines` — strings, after their
  opening quotes.
* `Toml.key` — one key.
* `Toml.keyPath` — a dotted key.
-/

namespace PrefixScan.Toml

/-! ## Escapes -/

/-- The value of a hexadecimal digit. -/
def hexDigit? (c : Char) : Option Nat :=
  if '0' ≤ c && c ≤ '9' then some (c.toNat - '0'.toNat)
  else if 'a' ≤ c && c ≤ 'f' then some (c.toNat - 'a'.toNat + 10)
  else if 'A' ≤ c && c ≤ 'F' then some (c.toNat - 'A'.toNat + 10)
  else none

/-- The character with a code point in hexadecimal digits. Surrogates and numbers past the last
code point are none. -/
def codePoint? (digits : List Char) : Option Char := do
  let values ← digits.mapM hexDigit?
  let n := values.foldl (fun n d => 16 * n + d) 0
  if n.isValidChar then some (Char.ofNat n) else none

/-- The character of a short escape. -/
def escape? : Char → Option Char
  | 'b' => some '\x08'
  | 't' => some '\t'
  | 'n' => some '\n'
  | 'f' => some '\x0c'
  | 'r' => some '\r'
  | '"' => some '"'
  | '\\' => some '\\'
  | _ => none

/-- A character in front of what a reader read. -/
def prepend (c : Char) : Option (List Char × List Char) → Option (List Char × List Char)
  | some (text, rest) => some (c :: text, rest)
  | none => none

/-- What a reader reads after a character, if there is a character. -/
def prepend? (c : Option Char) (read : Option (List Char × List Char)) :
    Option (List Char × List Char) :=
  match c with
  | some c => prepend c read
  | none => none

/-! ## Strings on one line -/

/-- A basic string, after its opening quote. -/
def basic : List Char → Option (List Char × List Char)
  | [] => none
  | '"' :: rest => some ([], rest)
  | '\\' :: 'u' :: a :: b :: c :: d :: rest => prepend? (codePoint? [a, b, c, d]) (basic rest)
  | '\\' :: 'U' :: a :: b :: c :: d :: e :: f :: g :: h :: rest =>
    prepend? (codePoint? [a, b, c, d, e, f, g, h]) (basic rest)
  | '\\' :: c :: rest => prepend? (escape? c) (basic rest)
  | c :: rest => if isPlain c && c ≠ '\\' then prepend c (basic rest) else none

/-- A literal string, after its opening quote. -/
def literal : List Char → Option (List Char × List Char)
  | [] => none
  | '\'' :: rest => some ([], rest)
  | c :: rest => if isPlain c then prepend c (literal rest) else none

/-! ## Strings on several lines -/

/-- Where a reader of a basic string on several lines is. -/
inductive Mode
  /-- In the text. -/
  | text
  /-- Between a backslash and the end of its line. -/
  | lineGap
  /-- In the blanks and line ends that follow a backslash at the end of a line; they are dropped. -/
  | margin
deriving DecidableEq, Repr

/-- A basic string on several lines, after its opening quotes. -/
def basicLines : Mode → List Char → Option (List Char × List Char)
  | _, [] => none
  | .lineGap, '\n' :: rest => basicLines .margin rest
  | .lineGap, '\r' :: '\n' :: rest => basicLines .margin rest
  | .lineGap, c :: rest => if isBlank c then basicLines .lineGap rest else none
  | .margin, '\n' :: rest => basicLines .margin rest
  | .margin, '\r' :: '\n' :: rest => basicLines .margin rest
  | .text, '\n' :: rest => prepend '\n' (basicLines .text rest)
  | .text, '\r' :: '\n' :: rest => prepend '\n' (basicLines .text rest)
  | _, '"' :: '"' :: '"' :: '"' :: '"' :: rest => some (['"', '"'], rest)
  | _, '"' :: '"' :: '"' :: '"' :: rest => some (['"'], rest)
  | _, '"' :: '"' :: '"' :: rest => some ([], rest)
  | _, '\\' :: '\n' :: rest => basicLines .margin rest
  | _, '\\' :: '\r' :: '\n' :: rest => basicLines .margin rest
  | _, '\\' :: 'u' :: a :: b :: c :: d :: rest =>
    prepend? (codePoint? [a, b, c, d]) (basicLines .text rest)
  | _, '\\' :: 'U' :: a :: b :: c :: d :: e :: f :: g :: h :: rest =>
    prepend? (codePoint? [a, b, c, d, e, f, g, h]) (basicLines .text rest)
  | _, '\\' :: c :: rest =>
    if isBlank c then basicLines .lineGap rest
    else prepend? (escape? c) (basicLines .text rest)
  | mode, c :: rest =>
    if mode = .margin && isBlank c then basicLines .margin rest
    else if isPlain c && c ≠ '\\' then prepend c (basicLines .text rest)
    else none

/-- A literal string on several lines, after its opening quotes. -/
def literalLines : List Char → Option (List Char × List Char)
  | [] => none
  | '\'' :: '\'' :: '\'' :: '\'' :: '\'' :: rest => some (['\'', '\''], rest)
  | '\'' :: '\'' :: '\'' :: '\'' :: rest => some (['\''], rest)
  | '\'' :: '\'' :: '\'' :: rest => some ([], rest)
  | '\r' :: '\n' :: rest => prepend '\n' (literalLines rest)
  | c :: rest => if c = '\n' || isPlain c then prepend c (literalLines rest) else none

/-- Drops the line end that may follow the opening quotes of a string on several lines. -/
def openLine (s : List Char) : List Char := (newline? s).getD s

/-! ## Keys -/

/-- A character of a bare key: a letter or digit of ASCII, a hyphen or an underscore. -/
def isBare (c : Char) : Bool := c.isAlphanum || c = '-' || c = '_'

/-- Text of a reader as a string. -/
def asString : Option (List Char × List Char) → Option (String × List Char)
  | some (text, rest) => some (String.ofList text, rest)
  | none => none

/-- One key. -/
def key : List Char → Option (String × List Char)
  | '"' :: rest => asString (basic rest)
  | '\'' :: rest => asString (literal rest)
  | s =>
    let bare := s.takeWhile isBare
    if bare.isEmpty then none else some (String.ofList bare, s.dropWhile isBare)

/-- A dotted key of at most `parts` parts, as the path in front of the last part and the last part.
Blanks around the parts are dropped. -/
def keyPath : (parts : Nat) → List Char → Option ((List String × String) × List Char)
  | 0, _ => none
  | parts + 1, s =>
    match key (skipBlanks s) with
    | none => none
    | some (first, rest) =>
      match skipBlanks rest with
      | '.' :: rest =>
        match keyPath parts rest with
        | some ((path, last), rest) => some ((first :: path, last), rest)
        | none => none
      | rest => some (([], first), rest)

end PrefixScan.Toml
