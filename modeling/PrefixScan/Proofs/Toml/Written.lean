import PrefixScan.Proofs.Text
import PrefixScan.Proofs.Toml.Statement
import Mathlib.Algebra.Group.Nat.Defs

/-!
# Reading what was written

A document is written line by line: a header, a bare key with a word as its value, or nothing.  Each line is
read back as the statement that it was written for, whatever follows it.  The words that matter are decimal
digits of numbers, which never start with a superfluous zero and hold no underscore, and booleans.

## Main results

* `Toml.word?_toDigits` — the digits of a number are read as the number.
* `Toml.statement_pair`, `Toml.statement_table`, `Toml.statement_empty` — lines are read as what was written.
-/

namespace PrefixScan.Toml

/-! ## Numbers -/

/-- No zero leads the digits of a number, unless the number is zero. -/
theorem eq_nil_of_toDigits_eq {n : Nat} {rest : List Char} (h : Nat.toDigits 10 n = '0' :: rest) :
    rest = [] := by
  induction n using Nat.strongRecOn generalizing rest with
  | ind n ih =>
      by_cases hshort : n < 10
      · rw [Nat.toDigits_of_lt_base hshort] at h
        exact (List.cons.inj h).2.symm
      · have hlong : 10 ≤ n := Nat.le_of_not_lt hshort
        rw [Nat.toDigits_of_base_le (by decide) hlong] at h
        obtain ⟨first, others, hfront⟩ := List.exists_cons_of_ne_nil (Nat.toDigits_ne_nil (n := n / 10))
        rw [hfront, List.cons_append] at h
        obtain ⟨rfl, -⟩ := List.cons.inj h
        -- The digits in front of the last one would be those of zero.
        have hzero : Nat.toDigits 10 (n / 10) = ['0'] := by
          rw [hfront, ih (n / 10) (by omega) hfront]
        have hvalue : n / 10 = 0 := by
          rw [← Nat.ofDigitChars_ten_toDigits (n := n / 10), hzero]
          rfl
        omega

/-- Digits without underscores are the digits of their group. -/
theorem moreDigits?_eq {isDigit : Char → Bool} {s : List Char} (hdigits : ∀ c ∈ s, isDigit c)
    (hunderscore : '_' ∉ s) : moreDigits? isDigit s = some s := by
  induction s with
  | nil => rfl
  | cons c rest ih =>
      have hc : c ≠ '_' := fun h => hunderscore (h ▸ List.mem_cons_self ..)
      have hrest := ih (fun d hd => hdigits d (List.mem_cons_of_mem _ hd))
        fun h => hunderscore (List.mem_cons_of_mem _ h)
      simp [moreDigits?, hc, hdigits c (List.mem_cons_self ..), hrest]

theorem decimalDigits?_toDigits (n : Nat) :
    decimalDigits? (Nat.toDigits 10 n) = some (Nat.toDigits 10 n) := by
  have hdigits : digits? Char.isDigit (Nat.toDigits 10 n) = some (Nat.toDigits 10 n) := by
    obtain ⟨first, rest, h⟩ := List.exists_cons_of_ne_nil (Nat.toDigits_ne_nil (n := n) (b := 10))
    have hmem : ∀ c ∈ first :: rest, c.isDigit := fun c hc => Text.isDigit_of_mem_toDigits (h ▸ hc)
    have hunderscore : '_' ∉ first :: rest := h ▸ Nat.underscore_not_in_toDigits
    rw [h, digits?, if_pos (hmem first (List.mem_cons_self ..)),
      moreDigits?_eq (fun c hc => hmem c (List.mem_cons_of_mem _ hc))
        fun hc => hunderscore (List.mem_cons_of_mem _ hc)]
    rfl
  rw [decimalDigits?, hdigits]
  split
  · next heq => cases eq_nil_of_toDigits_eq (Option.some.inj heq)
  · rfl

theorem sign_toDigits (n : Nat) : sign (Nat.toDigits 10 n) = (false, Nat.toDigits 10 n) := by
  unfold sign
  split
  · next h => exact (Text.not_mem_toDigits (c := '+') rfl n (h ▸ List.mem_cons_self ..)).elim
  · next h => exact (Text.not_mem_toDigits (c := '-') rfl n (h ▸ List.mem_cons_self ..)).elim
  · rfl

/-- A number without sign fits if its top bit is clear. -/
theorem fit?_natCast {n : Nat} (hn : n < 2 ^ 63) : fit? n = some (n : Int) := by
  have hfits : (BitVec.ofInt 64 n).toInt = n := by
    rw [BitVec.toInt_ofInt]
    exact Int.bmod_eq_of_le (by omega) (by omega)
  rw [fit?, if_pos hfits]

theorem integer?_toDigits {n : Nat} (hn : n < 2 ^ 63) : integer? (Nat.toDigits 10 n) = some (n : Int) := by
  have hsecond (c : Char) (rest : List Char) (hc : c.isDigit = false) :
      Nat.toDigits 10 n ≠ '0' :: c :: rest :=
    fun h => Text.not_mem_toDigits hc n (by simp [h])
  unfold integer?
  split
  · next h => exact (hsecond 'x' _ rfl h).elim
  · next h => exact (hsecond 'o' _ rfl h).elim
  · next h => exact (hsecond 'b' _ rfl h).elim
  · simp [sign_toDigits, decimalDigits?_toDigits, decimal, Nat.ofDigitChars_ten_toDigits, fit?_natCast hn]

/-- The digits of a number are read as the number. -/
theorem word?_toDigits {n : Nat} (hn : n < 2 ^ 63) :
    word? (Nat.toDigits 10 n) = some (.integer n) := by
  rw [word?, integer?_toDigits hn]

theorem isWord_of_mem_toDigits {n : Nat} {c : Char} (h : c ∈ Nat.toDigits 10 n) : isWord c := by
  simp [isWord, isBare, Char.isAlphanum, Text.isDigit_of_mem_toDigits h]

/-! ## Lines -/

section Line

variable {name word rest : List Char} {header : List String} {found : Value}

/-- A word is a value if its first character opens no other kind of value. -/
theorem value_eq_scalar {depth : Nat} {c : Char} (hc : isWord c) : value depth (c :: rest) = scalar (c :: rest) := by
  have hother : c ≠ '"' ∧ c ≠ '\'' ∧ c ≠ '[' ∧ c ≠ '{' := by
    refine ⟨?_, ?_, ?_, ?_⟩ <;> rintro rfl <;> revert hc <;> decide
  cases depth <;> simp [value, hother]

/-- A word at the end of a line is read as its value. -/
theorem value_word {depth : Nat} (hne : word ≠ []) (hword : ∀ c ∈ word, isWord c)
    (hfound : word? word = some found) :
    value depth (word ++ '\n' :: rest) = some (found, '\n' :: rest) := by
  obtain ⟨first, others, rfl⟩ := List.exists_cons_of_ne_nil hne
  obtain ⟨htake, hdrop⟩ := Text.takeWhile_append_cons rest hword (show isWord '\n' = false by decide)
  rw [List.cons_append, value_eq_scalar (hword first (List.mem_cons_self ..)), ← List.cons_append, scalar,
    htake, hdrop]
  simp [hfound]

theorem isBlank_of_isWord {c : Char} (hc : isWord c) : isBlank c = false := by
  rw [Bool.eq_false_iff]
  intro hblank
  simp only [isBlank, Bool.or_eq_true, decide_eq_true_eq] at hblank
  obtain rfl | rfl := hblank <;> revert hc <;> decide

/-- What is known of the first character of a bare key. -/
theorem of_isBare {c : Char} (hc : isBare c) :
    isBlank c = false ∧ c ≠ '[' ∧ c ≠ '"' ∧ c ≠ '\'' ∧ c ≠ '#' ∧ c ≠ '\n' ∧ c ≠ '\r' := by
  refine ⟨isBlank_of_isWord (by simp [isWord, hc]), ?_, ?_, ?_, ?_, ?_, ?_⟩
  all_goals rintro rfl; revert hc; decide

/-- A bare key ends where the first other character stands. -/
theorem key_bare {c : Char} (hne : name ≠ []) (hname : ∀ c ∈ name, isBare c) (hc : isBare c = false) :
    key (name ++ c :: rest) = some (String.ofList name, c :: rest) := by
  obtain ⟨first, others, rfl⟩ := List.exists_cons_of_ne_nil hne
  obtain ⟨htake, hdrop⟩ := Text.takeWhile_append_cons rest hname hc
  obtain ⟨-, -, hquote, happos, -⟩ := of_isBare (hname first (List.mem_cons_self ..))
  unfold key
  split
  · next h => exact (hquote (List.cons.inj h).1).elim
  · next h => exact (happos (List.cons.inj h).1).elim
  · rw [htake, hdrop]
    simp

theorem skipBlanks_bare (hne : name ≠ []) (hname : ∀ c ∈ name, isBare c) :
    skipBlanks (name ++ rest) = name ++ rest := by
  obtain ⟨first, others, rfl⟩ := List.exists_cons_of_ne_nil hne
  obtain ⟨hblank, -⟩ := of_isBare (hname first (List.mem_cons_self ..))
  simp [skipBlanks, hblank]

/-- A bare key that no dot follows is a path of its own. -/
theorem keyPath_bare {c : Char} {parts : Nat} (hne : name ≠ []) (hname : ∀ c ∈ name, isBare c)
    (hc : isBare c = false) (hdot : ∀ after, skipBlanks (c :: rest) ≠ '.' :: after) :
    keyPath (parts + 1) (name ++ c :: rest) = some (([], String.ofList name), skipBlanks (c :: rest)) := by
  rw [keyPath, skipBlanks_bare hne hname, key_bare hne hname hc]
  dsimp only
  split
  · next h => exact (hdot _ h).elim
  · rfl

/-- A line with a bare key on it is no header. -/
theorem bare_ne_bracket {after : List Char} (hne : name ≠ []) (hname : ∀ c ∈ name, isBare c) :
    name ++ rest ≠ '[' :: after := by
  obtain ⟨first, others, rfl⟩ := List.exists_cons_of_ne_nil hne
  obtain ⟨-, hopen, -⟩ := of_isBare (hname first (List.mem_cons_self ..))
  exact fun h => hopen (List.cons.inj h).1

/-- A line with a bare key on it is not empty. -/
theorem lineEnd_bare (hne : name ≠ []) (hname : ∀ c ∈ name, isBare c) : lineEnd (name ++ rest) = none := by
  rw [lineEnd, skipBlanks_bare hne hname]
  obtain ⟨first, others, rfl⟩ := List.exists_cons_of_ne_nil hne
  obtain ⟨-, -, -, -, hcomment, hfeed, hreturn⟩ := of_isBare (hname first (List.mem_cons_self ..))
  simp [hcomment, newline?, hfeed, hreturn]

/-- A line with a bare key and a word is read as the key with the value of the word. -/
theorem statement_pair (hne : name ≠ []) (hname : ∀ c ∈ name, isBare c) (hword : word ≠ [])
    (hwords : ∀ c ∈ word, isWord c) (hfound : word? word = some found) :
    statement header (name ++ ' ' :: '=' :: ' ' :: (word ++ '\n' :: rest)) =
      some (some (.pair header [] (String.ofList name) found), rest) := by
  have hpath : keyPath maxDepth (name ++ ' ' :: '=' :: ' ' :: (word ++ '\n' :: rest)) =
      some (([], String.ofList name), '=' :: ' ' :: (word ++ '\n' :: rest)) :=
    keyPath_bare hne hname (by decide) fun _ => by simp [skipBlanks, isBlank]
  have hblanks : skipBlanks (' ' :: (word ++ '\n' :: rest)) = word ++ '\n' :: rest := by
    obtain ⟨first, others, rfl⟩ := List.exists_cons_of_ne_nil hword
    have hfirst : isBlank first = false := isBlank_of_isWord (hwords first (List.mem_cons_self ..))
    rw [skipBlanks, List.dropWhile_cons_of_pos (by decide), List.cons_append,
      List.dropWhile_cons_of_neg (by simp [hfirst])]
  have hpair : pair (value maxDepth) (name ++ ' ' :: '=' :: ' ' :: (word ++ '\n' :: rest)) =
      some ((([], String.ofList name), found), '\n' :: rest) := by
    simp only [pair, hpath, hblanks, value_word hword hwords hfound]
  rw [statement, skipBlanks_bare hne hname]
  split
  · next h => exact (bare_ne_bracket hne hname h).elim
  · next h => exact (bare_ne_bracket hne hname h).elim
  · rw [lineEnd_bare hne hname, pairStatement, hpair]
    rfl

/-- A header of a bare key is read as the header. -/
theorem statement_table (hne : name ≠ []) (hname : ∀ c ∈ name, isBare c) :
    statement header ('[' :: (name ++ ']' :: '\n' :: rest)) =
      some (some (.table [] (String.ofList name)), rest) := by
  have hpath : keyPath maxDepth (name ++ ']' :: '\n' :: rest) =
      some (([], String.ofList name), ']' :: '\n' :: rest) :=
    keyPath_bare hne hname (by decide) fun _ => by simp [skipBlanks, isBlank]
  rw [statement, show skipBlanks ('[' :: (name ++ ']' :: '\n' :: rest)) = '[' :: (name ++ ']' :: '\n' :: rest)
    from rfl]
  split
  · next h => exact (bare_ne_bracket hne hname (List.cons.inj h).2).elim
  · next h =>
      rw [← (List.cons.inj h).2, tableStatement, hpath]
      rfl
  · next h => exact (h _ rfl).elim

/-- An empty line is read as no statement. -/
theorem statement_empty : statement header ('\n' :: rest) = some (none, rest) := rfl

/-- A document starts with the statement on its first line. -/
theorem statementsFrom_some {fuel : Nat} {s : List Char} {first : Statement} (hne : s ≠ [])
    (h : statement header s = some (some first, rest)) :
    statementsFrom (fuel + 1) header s = (statementsFrom fuel first.header rest).map (first :: ·) := by
  cases s with
  | nil => exact (hne rfl).elim
  | cons c t => simp only [statementsFrom, h]

theorem statementsFrom_none {fuel : Nat} {s : List Char} (hne : s ≠ [])
    (h : statement header s = some (none, rest)) :
    statementsFrom (fuel + 1) header s = statementsFrom fuel header rest := by
  cases s with
  | nil => exact (hne rfl).elim
  | cons c t => simp only [statementsFrom, h]

end Line

end PrefixScan.Toml
