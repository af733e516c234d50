import PrefixScan.Toml.Value
import PrefixScan.Toml.Quoted

/-!
# Numbers of TOML documents

Digits may be grouped by single underscores, each between two digits. An integer is decimal with an
optional sign and without leading zeros, or hexadecimal, octal or binary without sign; it fits 64
bits in two's complement. A floating-point number is a decimal integer with a fraction, an exponent
or both; a positive one must not round to infinity in binary64.

The readers of this module take a whole word, they leave nothing over.

## Main definitions

* `Toml.digits?` — a group of digits.
* `Toml.integer?` — an integer.
* `Toml.real?` — a floating-point number.
-/

namespace PrefixScan.Toml

/-! ## Digits -/

/-- The digits after the first one: each may follow one underscore. -/
def moreDigits? (isDigit : Char → Bool) : List Char → Option (List Char)
  | [] => some []
  | '_' :: c :: rest => if isDigit c then (moreDigits? isDigit rest).map (c :: ·) else none
  | c :: rest => if isDigit c then (moreDigits? isDigit rest).map (c :: ·) else none

/-- The digits of a group, without its underscores. A group has at least one digit. -/
def digits? (isDigit : Char → Bool) : List Char → Option (List Char)
  | [] => none
  | c :: rest => if isDigit c then (moreDigits? isDigit rest).map (c :: ·) else none

/-- The digits of a decimal integer without sign: no zero leads other digits. -/
def decimalDigits? (s : List Char) : Option (List Char) :=
  match digits? Char.isDigit s with
  | some ('0' :: _ :: _) => none
  | found => found

/-- The number that decimal digits write. -/
def decimal (digits : List Char) : Nat := Nat.ofDigitChars 10 digits 0

/-- The number that digits of a base up to 16 write. -/
def inBase (base : Nat) (digits : List Char) : Nat :=
  digits.foldl (fun n c => base * n + (hexDigit? c).getD 0) 0

/-! ## Integers -/

/-- The sign in front of a decimal number: whether it is a minus, and what follows. -/
def sign : List Char → Bool × List Char
  | '+' :: rest => (false, rest)
  | '-' :: rest => (true, rest)
  | s => (false, s)

/-- An integer if it fits 64 bits in two's complement. -/
def fit? (n : Int) : Option Int := if (BitVec.ofInt 64 n).toInt = n then some n else none

/-- An integer. -/
def integer? : List Char → Option Int
  | '0' :: 'x' :: rest => do
    let digits ← digits? (fun c => (hexDigit? c).isSome) rest
    fit? (inBase 16 digits)
  | '0' :: 'o' :: rest => do
    let digits ← digits? (fun c => '0' ≤ c && c ≤ '7') rest
    fit? (inBase 8 digits)
  | '0' :: 'b' :: rest => do
    let digits ← digits? (fun c => c = '0' || c = '1') rest
    fit? (inBase 2 digits)
  | s => do
    let (negative, rest) := sign s
    let digits ← decimalDigits? rest
    let n : Int := decimal digits
    fit? (if negative then -n else n)

/-! ## Floating-point numbers -/

/-- Whether `digits * 10 ^ exponent` rounds to infinity in binary64: it is at least half a unit in
the last place above the greatest finite number. The number of digits decides unless the
magnitude is close. -/
def overflows (digits : Nat) (exponent : Int) : Bool :=
  let magnitude := (Nat.toDigits 10 digits).length + exponent
  if digits = 0 ∨ magnitude ≤ 308 then false
  else if 310 < magnitude then true
  else
    let bound := (1 <<< 1024) - (1 <<< 970)
    if 0 ≤ exponent then bound ≤ digits * Nat.pow 10 exponent.toNat
    else bound * Nat.pow 10 (-exponent).toNat ≤ digits

/-- The exponent of a floating-point number, after its letter. -/
def exponent? (s : List Char) : Option Int := do
  let (negative, rest) := sign s
  let digits ← digits? Char.isDigit rest
  let n : Int := decimal digits
  return if negative then -n else n

/-- A finite number from its parts. -/
def finite? (negative : Bool) (whole fraction : List Char) (exponent : Int) : Option Real :=
  let digits := decimal (whole ++ fraction)
  let exponent := exponent - fraction.length
  if !negative && overflows digits exponent then none
  else some (.finite negative digits exponent)

/-- A digit or an underscore. -/
def isGrouped (c : Char) : Bool := c.isDigit || c = '_'

/-- A floating-point number. -/
def real? (s : List Char) : Option Real :=
  let (negative, rest) := sign s
  if rest = ['i', 'n', 'f'] then some (.infinity negative)
  else if rest = ['n', 'a', 'n'] then some .nan
  else do
    let whole ← decimalDigits? (rest.takeWhile isGrouped)
    match rest.dropWhile isGrouped with
    | '.' :: rest =>
      let fraction ← digits? Char.isDigit (rest.takeWhile isGrouped)
      match rest.dropWhile isGrouped with
      | [] => finite? negative whole fraction 0
      | c :: rest =>
        if c = 'e' || c = 'E' then do
          let exponent ← exponent? rest
          finite? negative whole fraction exponent
        else none
    | c :: rest =>
      if c = 'e' || c = 'E' then do
        let exponent ← exponent? rest
        finite? negative whole [] exponent
      else none
    | [] => none

end PrefixScan.Toml
