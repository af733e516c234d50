import PrefixScan.Text.Fixed
import PrefixScan.Text.Record

/-!
# Digits, columns and fixed-point numbers

What texts of numbers look like to a reader: which characters they hold, and where they end.

## Main results

* `Text.isDigit_of_mem_toDigits` — decimal text holds digits.
* `Text.takeWhile_append_cons` — a run of characters ends in front of the first other one.
* `Text.eq_point_or_isDigit_of_mem_fixed` — fixed-point text holds digits and points.
-/

namespace PrefixScan.Text

/-! ## Decimal text -/

theorem isDigit_of_mem_toDigits {n : Nat} {c : Char} (h : c ∈ Nat.toDigits 10 n) : c.isDigit :=
  Nat.isDigit_of_mem_toDigits (by decide) (by decide) h

/-- A character that is no digit is in no number. -/
theorem not_mem_toDigits {c : Char} (hc : c.isDigit = false) (n : Nat) : c ∉ Nat.toDigits 10 n :=
  fun h => by simp [isDigit_of_mem_toDigits h] at hc

theorem toList_word {w : Nat} (x : BitVec w) : (word x).toList = Nat.toDigits 10 x.toNat := by
  simp [word]

/-- A run of characters ends in front of the first other one. -/
theorem takeWhile_append_cons (rest : List Char) {p : Char → Bool} {front : List Char} {c : Char}
    (hfront : ∀ d ∈ front, p d) (hc : p c = false) :
    (front ++ c :: rest).takeWhile p = front ∧ (front ++ c :: rest).dropWhile p = c :: rest := by
  rw [List.takeWhile_append_of_pos hfront, List.dropWhile_append_of_pos hfront]
  simp [hc]

/-! ## Padding -/

theorem toList_padLeft (width : Nat) (text : String) :
    (padLeft width text).toList = List.replicate (width - text.length) ' ' ++ text.toList := by
  simp [padLeft]

theorem toList_padZeros (width : Nat) (text : String) :
    (padZeros width text).toList = List.replicate (width - text.length) '0' ++ text.toList := by
  simp [padZeros]

/-! ## Fixed-point text -/

/-- Padding with zeros leaves a number a row of digits. -/
theorem isDigit_of_mem_padZeros {width n : Nat} {c : Char} (h : c ∈ (padZeros width (toString n)).toList) :
    c.isDigit := by
  rw [toList_padZeros, List.mem_append] at h
  rcases h with hzero | hdigit
  · rw [List.eq_of_mem_replicate hzero]
    rfl
  · exact isDigit_of_mem_toDigits (n := n) (by simpa using hdigit)

/-- Fixed-point text holds digits and points, whatever number it stands for. -/
theorem eq_point_or_isDigit_of_mem_fixed {places : Nat} {x : Float} {c : Char}
    (h : c ∈ (fixed places x).toList) : c = '.' ∨ c.isDigit := by
  unfold fixed at h
  simp only [String.toList_append, List.mem_append] at h
  rcases h with (hwhole | hpoint) | hplaces
  · exact .inr (isDigit_of_mem_toDigits (by simpa using hwhole))
  · exact .inl (by simpa using hpoint)
  · exact .inr (isDigit_of_mem_padZeros hplaces)

end PrefixScan.Text
