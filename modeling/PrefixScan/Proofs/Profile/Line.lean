import PrefixScan.Profile.Record
import PrefixScan.Proofs.Text
import Mathlib.Data.List.DropRight

/-!
# Reading profile lines

A label is any text.  It may hold blanks, colons and line feeds, or look like the line of another record, and
nothing in the line marks where it ends.  A line is still read in one way only, from its two ends.  From the
left, the blanks in front of a number and the blank behind it bound each of the two columns, however many
digits the number has.  From the right, the duration holds no colon, so the last colon of the line is the one
behind the label.

## Main definitions

* `Profile.Record.ofLine?` — the record that a line reports.

## Main results

* `Profile.column?_padLeft` — a column is read as its number, whatever follows it.
* `Profile.beforeLastColon_append` — a label is read in front of a text without colons.
* `Profile.Record.line_unambiguous` — a record is read off its line, and no two have the same line.
-/

namespace PrefixScan.Profile

/-! ## Columns -/

/-- The number in the column at the front of a text, and the text behind the blank that ends the column. -/
def column? (s : List Char) : Option (Nat × List Char) :=
  let number := s.dropWhile (· = ' ')
  match number.dropWhile Char.isDigit with
  | ' ' :: rest => some (Nat.ofDigitChars 10 (number.takeWhile Char.isDigit) 0, rest)
  | _ => none

/-- The blanks in front of a number end at its first digit. -/
theorem dropWhile_padLeft {w : Nat} (width : Nat) (x : BitVec w) (rest : List Char) :
    ((Text.padLeft width (Text.word x)).toList ++ rest).dropWhile (· = ' ') =
      Nat.toDigits 10 x.toNat ++ rest := by
  obtain ⟨first, others, hnumber⟩ :=
    List.exists_cons_of_ne_nil (Nat.toDigits_ne_nil (n := x.toNat) (b := 10))
  have hfirst : first ≠ ' ' := by
    rintro rfl
    exact Text.not_mem_toDigits rfl x.toNat (hnumber ▸ List.mem_cons_self ..)
  rw [Text.toList_padLeft, Text.toList_word, hnumber, List.append_assoc, List.cons_append]
  exact (Text.takeWhile_append_cons _ (fun c hc => by simp [List.eq_of_mem_replicate hc]) (by simp [hfirst])).2

/-- A column is read as its number, whatever follows it. -/
theorem column?_padLeft {w : Nat} (width : Nat) (x : BitVec w) (rest : List Char) :
    column? ((Text.padLeft width (Text.word x)).toList ++ ' ' :: rest) = some (x.toNat, rest) := by
  obtain ⟨hdigits, hbehind⟩ := Text.takeWhile_append_cons rest
    (fun _ hc => Text.isDigit_of_mem_toDigits (n := x.toNat) hc) (show ' '.isDigit = false from rfl)
  simp only [column?, dropWhile_padLeft, hdigits, hbehind, Nat.ofDigitChars_ten_toDigits]

/-! ## Labels -/

/-- The text in front of the last colon. -/
def beforeLastColon (s : List Char) : String := String.ofList (s.rdropWhile (· ≠ ':')).dropLast

/-- A label is read in front of a text without colons, whichever colons it holds itself. -/
theorem beforeLastColon_append (text : String) {duration : List Char} (hduration : ':' ∉ duration) :
    beforeLastColon (text.toList ++ ':' :: duration) = text := by
  have hcolon : ∀ c ∈ duration.reverse, decide (c ≠ ':') := by
    intro c hc
    have hne : c ≠ ':' := fun h => hduration (h ▸ List.mem_reverse.1 hc)
    simp [hne]
  have hlast : (text.toList ++ ':' :: duration).rdropWhile (· ≠ ':') = text.toList ++ [':'] := by
    rw [List.rdropWhile, List.reverse_append, List.reverse_cons, List.append_assoc, List.cons_append,
      (Text.takeWhile_append_cons _ hcolon (by simp)).2]
    simp
  rw [beforeLastColon, hlast, List.dropLast_concat, String.ofList_toList]

/-! ## Lines -/

namespace Record

/-- The record that a line reports. -/
def ofLine? (line : String) : Option Record := do
  let columns ← line.toList.dropPrefix? "[profile] ".toList
  let (start, columns) ← column? columns
  let (stop, rest) ← column? columns
  return ⟨BitVec.ofNat 64 start, BitVec.ofNat 64 stop, beforeLastColon rest⟩

variable (record : Record)

/-- The characters of a line behind the colon that ends its label. -/
def durationText : List Char := ' ' :: ((Text.fixed 3 record.milliseconds).toList ++ ['m', 's'])

/-- The duration holds no colon, whatever number it is written for. -/
theorem colon_not_mem_durationText : ':' ∉ record.durationText := by
  intro h
  simp only [durationText, List.mem_cons, List.mem_append, Char.reduceEq, List.not_mem_nil, or_false,
    false_or] at h
  obtain hpoint | hdigit := Text.eq_point_or_isDigit_of_mem_fixed h
  · exact absurd hpoint (by decide)
  · exact absurd hdigit (by decide)

/-- The parts of a line. -/
theorem toList_line : record.line.toList =
    "[profile] ".toList ++ ((Text.padLeft 8 (Text.word record.start)).toList ++ ' ' ::
      ((Text.padLeft 8 (Text.word record.stop)).toList ++ ' ' ::
        (record.label.toList ++ ':' :: record.durationText))) := by
  have hblank : " ".toList = [' '] := rfl
  have hcolon : ": ".toList = [':', ' '] := rfl
  have hunit : "ms".toList = ['m', 's'] := rfl
  unfold line
  simp only [durationText, String.toList_append, hblank, hcolon, hunit, List.append_assoc,
    List.cons_append, List.nil_append]

/-- A record is read off its line. -/
theorem ofLine?_line : ofLine? record.line = some record := by
  have hheading (rest : List Char) :
      ("[profile] ".toList ++ rest).dropPrefix? "[profile] ".toList = some rest :=
    List.dropPrefix?_append_of_beq rest BEq.rfl
  have hlabel : beforeLastColon (record.label.toList ++ ':' :: record.durationText) = record.label :=
    beforeLastColon_append record.label record.colon_not_mem_durationText
  simp only [ofLine?, toList_line, hheading, column?_padLeft, hlabel, Option.bind_eq_bind, Option.bind_some,
    BitVec.ofNat_toNat, BitVec.setWidth_eq]
  rfl

/-- A record is read off its line whatever its label is, so no two records have the same line. -/
theorem line_unambiguous :
    (∀ record : Record, ofLine? record.line = some record) ∧ Function.Injective line := by
  refine ⟨ofLine?_line, fun first second h => ?_⟩
  have hread : some first = some second := by rw [← ofLine?_line first, h, ofLine?_line second]
  exact Option.some.inj hread

/-- The label reads like the end of one line and the start of another. -/
example : ofLine? "[profile]     1000  2501000 copy: 0.001ms\n[profile] 1 2 add: 2.500ms" =
    some ⟨1000, 2501000, "copy: 0.001ms\n[profile] 1 2 add"⟩ := by decide +kernel

end Record

end PrefixScan.Profile
