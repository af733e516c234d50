/-!
# Fixed-point text

A finite binary64 number that is not negative is `m * 2 ^ e` for natural `m`. Its fixed-point text
with `n` places is the decimal text of the nearest multiple of `10 ^ -n`, computed exactly; of two
nearest multiples the even one is taken.

## Main definitions

* `Text.roundDiv` — a quotient rounded to the nearest integer, a half to the even neighbour.
* `Text.fixed` — the text of a number with a given number of places.
* `Text.padLeft` — text set flush right in a column.
-/

namespace PrefixScan.Text

/-- The integer nearest to `num / den`, the even one of two. -/
def roundDiv (num den : Nat) : Nat :=
  let q := num / den
  let twice := 2 * (num % den)
  if twice < den then q
  else if den < twice then q + 1
  else if q % 2 = 0 then q
  else q + 1

/-- The magnitude of a finite binary64 number as `(m, k, j)` with value `m * 2 ^ k / 2 ^ j`. -/
def magnitude (x : Float) : Nat × Nat × Nat :=
  let bits := x.toBits.toNat
  let exponent := (bits >>> 52) % 2048
  let fraction := bits % (1 <<< 52)
  if exponent = 0 then (fraction, 0, 1074)
  else ((1 <<< 52) + fraction, exponent - 1075, 1075 - exponent)

/-- Text padded with blanks on the left to at least `width` characters. -/
def padLeft (width : Nat) (text : String) : String :=
  String.ofList (List.replicate (width - text.length) ' ') ++ text

/-- Digits padded with zeros on the left to at least `width` characters. -/
def padZeros (width : Nat) (text : String) : String :=
  String.ofList (List.replicate (width - text.length) '0') ++ text

/-- The magnitude of a finite number with `places` decimal places, at least one. -/
def fixed (places : Nat) (x : Float) : String :=
  let (m, k, j) := magnitude x
  let unit := Nat.pow 10 places
  let units := roundDiv ((m <<< k) * unit) (1 <<< j)
  toString (units / unit) ++ "." ++ padZeros places (toString (units % unit))

end PrefixScan.Text
