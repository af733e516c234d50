import PrefixScan.Proofs.Toml.Contents

/-!
# What a document says

The readers of values and statements build tables by definitions only, so every table they return has distinct
keys.  With that, a valid document says what its statements say, and nothing else.

## Main results

* `Toml.value_wellFormed` — values that are read are well-formed.
* `Toml.parse_facts` — a document says what its statements say.
-/

namespace PrefixScan.Toml

/-- A reader that reads well-formed values only. -/
def Reader.WellFormed (item : Reader Value) : Prop :=
  ∀ ⦃s value rest⦄, item s = some (value, rest) → value.WellFormed

theorem word?_wellFormed {word : List Char} {value : Value} (h : word? word = some value) :
    value.WellFormed := by
  unfold word? at h
  split at h
  · exact Option.some.inj h ▸ .integer _
  · split at h
    · exact Option.some.inj h ▸ .boolean _
    · split at h
      · exact Option.some.inj h ▸ .float _
      · obtain ⟨moment, -, rfl⟩ := Option.map_eq_some_iff.1 h
        exact .datetime moment

theorem wellFormed_of_map_word? {word rest rest' : List Char} {value : Value}
    (h : (word? word).map (·, rest) = some (value, rest')) : value.WellFormed := by
  obtain ⟨value, hword, heq⟩ := Option.map_eq_some_iff.1 h
  cases heq
  exact word?_wellFormed hword

theorem scalar_wellFormed : Reader.WellFormed scalar := by
  intro s value rest h
  unfold scalar at h
  dsimp only at h
  split at h
  · split at h
    · split at h
      · next hword =>
          cases h
          exact word?_wellFormed hword
      · cases h
    · exact wellFormed_of_map_word? h
  · exact wellFormed_of_map_word? h

theorem items_wellFormed {item : Reader Value} (hitem : item.WellFormed) {fuel : Nat} {s rest : List Char}
    {found : List Value} (h : items item fuel s = some (found, rest)) :
    ∀ value ∈ found, value.WellFormed := by
  induction fuel generalizing s found with
  | zero => cases h
  | succ fuel ih =>
      unfold items at h
      split at h
      · cases h
        simp
      · split at h
        · cases h
        · next first rest hfirst =>
            split at h
            · cases h
              simpa using hitem hfirst
            · split at h
              · next others rest hothers =>
                  cases h
                  exact List.forall_mem_cons.2 ⟨hitem hfirst, ih hothers⟩
              · cases h
            · cases h

theorem pair_wellFormed {item : Reader Value} (hitem : item.WellFormed) {s rest : List Char}
    {path : List String × String} {value : Value} (h : pair item s = some ((path, value), rest)) :
    value.WellFormed := by
  unfold pair at h
  split at h
  · split at h
    · next hvalue =>
        cases h
        exact hitem hvalue
    · cases h
  · cases h

theorem entries_wellFormed {item : Reader Value} (hitem : item.WellFormed) {fuel : Nat}
    {s rest : List Char} {before after : Table} (hbefore : before.WellFormed)
    (h : entries item fuel before s = some (after, rest)) : after.WellFormed := by
  induction fuel generalizing s before with
  | zero => cases h
  | succ fuel ih =>
      unfold entries at h
      split at h
      · cases h
      · next path key value rest hpair =>
          split at h
          · cases h
          · next between hdefine =>
              have hbetween := (hbefore.extends_define (pair_wellFormed hitem hpair) hdefine).wellFormed
              split at h
              · cases h
                exact hbetween
              · exact ih hbetween h
              · cases h

theorem inlineTable_wellFormed {item : Reader Value} (hitem : item.WellFormed) {s rest : List Char}
    {found : Table} (h : inlineTable item s = some (found, rest)) : found.WellFormed := by
  unfold inlineTable at h
  split at h
  · cases h
    exact .nil
  · exact entries_wellFormed hitem .nil h

theorem stringValue_wellFormed {read : Option (List Char × List Char)} {value : Value} {rest : List Char}
    (h : stringValue read = some (value, rest)) : value.WellFormed := by
  unfold stringValue at h
  split at h
  · cases h
    exact .string _
  · cases h

/-- Every value that is read is well-formed. -/
theorem value_wellFormed (depth : Nat) : Reader.WellFormed (value depth) := by
  induction depth using Nat.strongRecOn with
  | ind depth ih =>
      intro s found rest h
      unfold value at h
      split at h
      case h_1 | h_2 | h_3 | h_4 => exact stringValue_wellFormed h
      case h_5 | h_6 => cases h
      case h_7 inner rest =>
        have hinner : (value inner).WellFormed := ih inner (Nat.lt_succ_self inner)
        split at h
        · next hitems =>
            cases h
            exact .array (items_wellFormed hinner hitems)
        · cases h
      case h_8 inner rest =>
        have hinner : (value inner).WellFormed := ih inner (Nat.lt_succ_self inner)
        split at h
        · next htable =>
            cases h
            exact Value.wellFormed_table_iff.2 (inlineTable_wellFormed hinner htable)
        · cases h
      case h_9 => exact scalar_wellFormed h

theorem pairStatement_wellFormed {header : List String} {s rest : List Char} {found : Statement}
    (h : pairStatement header s = some (found, rest)) : found.content.WellFormed := by
  unfold pairStatement at h
  split at h
  · next hpair =>
      obtain ⟨_, -, heq⟩ := Option.map_eq_some_iff.1 h
      cases heq
      exact pair_wellFormed (value_wellFormed maxDepth) hpair
  · cases h

theorem nextTableStatement_wellFormed {s rest : List Char} {found : Statement}
    (h : nextTableStatement s = some (found, rest)) : found.content.WellFormed := by
  unfold nextTableStatement at h
  split at h
  · obtain ⟨_, -, heq⟩ := Option.map_eq_some_iff.1 h
    cases heq
    exact Value.wellFormed_newTables
  · cases h

theorem tableStatement_wellFormed {s rest : List Char} {found : Statement}
    (h : tableStatement s = some (found, rest)) : found.content.WellFormed := by
  unfold tableStatement at h
  split at h
  · obtain ⟨_, -, heq⟩ := Option.map_eq_some_iff.1 h
    cases heq
    exact Value.wellFormed_newTable
  · cases h

/-- What a statement defines is well-formed. -/
theorem statement_wellFormed {header : List String} {s rest : List Char} {found : Statement}
    (h : statement header s = some (some found, rest)) : found.content.WellFormed := by
  unfold statement at h
  split at h
  · obtain ⟨⟨_, _⟩, hread, heq⟩ := Option.map_eq_some_iff.1 h
    cases heq
    exact nextTableStatement_wellFormed hread
  · obtain ⟨⟨_, _⟩, hread, heq⟩ := Option.map_eq_some_iff.1 h
    cases heq
    exact tableStatement_wellFormed hread
  · split at h
    · cases h
    · obtain ⟨⟨_, _⟩, hread, heq⟩ := Option.map_eq_some_iff.1 h
      cases heq
      exact pairStatement_wellFormed hread

theorem statementsFrom_wellFormed {fuel : Nat} {header : List String} {s : List Char}
    {found : List Statement} (h : statementsFrom fuel header s = some found) :
    ∀ each ∈ found, each.content.WellFormed := by
  fun_induction statementsFrom fuel header s generalizing found with
  | case1 => simp [← Option.some.inj h]
  | case2 => cases h
  | case3 fuel header s _ first rest hfirst ih =>
      obtain ⟨others, hothers, rfl⟩ := Option.map_eq_some_iff.1 h
      exact List.forall_mem_cons.2 ⟨statement_wellFormed hfirst, ih hothers⟩
  | case4 fuel header s _ rest hfirst ih => exact ih h
  | case5 => cases h

/-- A document says what its statements say, and nothing else. -/
theorem parse_facts {document : String} {found : List Statement} {table : Table}
    (hfound : statements document = some found) (htable : parse document = some table) :
    table.WellFormed ∧
      ∀ path s, table.Says path s ↔ ∃ each ∈ found, each.alone.Says path s := by
  rw [parse_eq, hfound] at htable
  obtain ⟨hwell, hfacts⟩ :=
    Statement.says_of_foldlM (statementsFrom_wellFormed hfound) .nil htable
  exact ⟨hwell, by simpa using hfacts⟩

end PrefixScan.Toml
