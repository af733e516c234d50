import PrefixScan.Toml.Value

/-!
# Dates and times of TOML documents

A date is `year-month-day` of the Gregorian calendar, a time is `hour:minute:second` with an
optional fraction of any length, of which nine digits count. A second may be 60. A date and a time
are joined by a `T` and may be followed by an offset from universal time.

## Main definitions

* `Toml.date?`, `Toml.time?`, `Toml.offset?` — the parts.
* `Toml.datetime?` — a date, a time, or both.
-/

namespace PrefixScan.Toml

/-- The value of a decimal digit. -/
def digit? (c : Char) : Option Nat := if c.isDigit then some (c.toNat - '0'.toNat) else none

/-- A number of two digits between two bounds. -/
def twoDigits? (least greatest : Nat) (a b : Char) : Option Nat := do
  let n := 10 * (← digit? a) + (← digit? b)
  if least ≤ n ∧ n ≤ greatest then some n else none

/-- Whether a year has a 29th of February. -/
def isLeapYear (year : Nat) : Bool := year % 4 = 0 && (year % 100 ≠ 0 || year % 400 = 0)

/-- The number of days of a month. -/
def daysInMonth (year month : Nat) : Nat :=
  if month = 2 then if isLeapYear year then 29 else 28
  else if month = 4 ∨ month = 6 ∨ month = 9 ∨ month = 11 then 30
  else 31

/-- A date in front of other text. -/
def date? : List Char → Option (Date × List Char)
  | y₁ :: y₂ :: y₃ :: y₄ :: '-' :: m₁ :: m₂ :: '-' :: d₁ :: d₂ :: rest => do
    let century ← twoDigits? 0 99 y₁ y₂
    let year ← twoDigits? 0 99 y₃ y₄
    let year := 100 * century + year
    let month ← twoDigits? 1 12 m₁ m₂
    let day ← twoDigits? 1 (daysInMonth year month) d₁ d₂
    return (⟨year, month, day⟩, rest)
  | _ => none

/-- The nanoseconds of a fraction of a second: nine digits count, missing ones are zeros. -/
def nanoseconds (digits : List Char) : Nat :=
  Nat.ofDigitChars 10 ((digits ++ List.replicate 9 '0').take 9) 0

/-- A time of day in front of other text. -/
def time? : List Char → Option (Time × List Char)
  | h₁ :: h₂ :: ':' :: m₁ :: m₂ :: ':' :: s₁ :: s₂ :: rest => do
    let hour ← twoDigits? 0 23 h₁ h₂
    let minute ← twoDigits? 0 59 m₁ m₂
    let second ← twoDigits? 0 60 s₁ s₂
    match rest with
    | '.' :: rest =>
      let fraction := rest.takeWhile Char.isDigit
      if fraction.isEmpty then none
      else
        some (⟨hour, minute, second, nanoseconds fraction⟩, rest.dropWhile Char.isDigit)
    | rest => some (⟨hour, minute, second, 0⟩, rest)
  | _ => none

/-- An offset that takes up the whole text: a `Z`, or hours and minutes with a sign. No text is no
offset. -/
def offset? : List Char → Option (Option Offset)
  | [] => some none
  | ['Z'] | ['z'] => some (some ⟨0⟩)
  | [sign, h₁, h₂, ':', m₁, m₂] => do
    let hours ← twoDigits? 0 23 h₁ h₂
    let minutes ← twoDigits? 0 59 m₁ m₂
    let total : Int := 60 * hours + minutes
    if sign = '+' then some (some ⟨total⟩)
    else if sign = '-' then some (some ⟨-total⟩)
    else none
  | _ => none

/-- A time and an offset that take up the whole text. -/
def timeOfMoment? (date : Date) (s : List Char) : Option Datetime := do
  let (time, rest) ← time? s
  let offset ← offset? rest
  return .moment date time offset

/-- A date, a time of day, or both, that take up the whole text. -/
def datetime? (s : List Char) : Option Datetime :=
  match date? s with
  | some (date, []) => some (.date date)
  | some (date, delimiter :: rest) =>
    if delimiter = 'T' || delimiter = 't' || delimiter = ' ' then timeOfMoment? date rest
    else none
  | none =>
    match time? s with
    | some (time, []) => some (.time time)
    | _ => none

end PrefixScan.Toml
