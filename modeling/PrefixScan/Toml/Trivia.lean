/-!
# Trivia of TOML documents

Blanks are spaces and tabs. A line ends with a line feed, possibly after a carriage return, or with
the document. A comment runs from `#` to the end of its line and holds no control characters but
tabs.

## Main definitions

* `Toml.skipBlanks` — drops blanks.
* `Toml.skipTrivia` — drops blanks, line ends and comments, as between the items of an array.
* `Toml.lineEnd` — the rest of a line that holds nothing more.
-/

namespace PrefixScan.Toml

/-- A space or a tab. -/
def isBlank (c : Char) : Bool := c = ' ' || c = '\t'

/-- A character that comments and strings may hold as it is: any but the control characters of
ASCII, tabs excepted. -/
def isPlain (c : Char) : Bool :=
  c = '\t' || (' ' ≤ c && c ≤ '~') || '\u0080' ≤ c

/-- Drops blanks. -/
def skipBlanks (s : List Char) : List Char := s.dropWhile isBlank

/-- Drops a line end. -/
def newline? : List Char → Option (List Char)
  | '\n' :: rest => some rest
  | '\r' :: '\n' :: rest => some rest
  | _ => none

/-- Drops blanks, line ends and comments. `comment` says whether the text starts inside of a
comment. -/
def skipTriviaFrom (comment : Bool) : List Char → List Char
  | [] => []
  | '\n' :: rest => skipTriviaFrom false rest
  | '\r' :: '\n' :: rest => skipTriviaFrom false rest
  | c :: rest =>
    if comment then if isPlain c then skipTriviaFrom true rest else c :: rest
    else if isBlank c then skipTriviaFrom false rest
    else if c = '#' then skipTriviaFrom true rest
    else c :: rest

/-- Drops blanks, line ends and comments. -/
def skipTrivia (s : List Char) : List Char := skipTriviaFrom false s

/-- What follows a line that holds nothing more than blanks and a comment. -/
def lineEnd (s : List Char) : Option (List Char) :=
  let rest := match skipBlanks s with
    | '#' :: rest => rest.dropWhile isPlain
    | rest => rest
  if rest.isEmpty then some [] else newline? rest

end PrefixScan.Toml
