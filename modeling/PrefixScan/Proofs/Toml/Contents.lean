import PrefixScan.Proofs.Toml.Statement

/-!
# The contents of tables

What a table holds is a set of facts: at the end of some path of keys and positions there is a value of some
shape.  The order of entries, how a table was defined, and how many entries share a part of their paths do
not appear in the facts.  A definition adds the facts of its own to those of a table and takes none away, so
what a document says is what its statements say, whatever their order.

An array of tables counts as all of its tables at once, at the path of the array.

## Main definitions

* `Toml.Value.Says`, `Toml.Table.Says` — the facts of a value and of a table.
* `Toml.Value.WellFormed`, `Toml.Table.WellFormed` — keys are distinct, an array of tables holds tables.
* `Toml.Table.Extends` — a table with the facts of another one added.
* `Toml.Statement.alone` — the table that a statement defines on its own.

## Main results

* `Toml.Value.WellFormed.says_self_iff`, `Toml.map_shape_eq_of_facts` — facts determine the shape of a value.
* `Toml.Statement.extends_apply` — a statement adds the facts of its own table.
* `Toml.Statement.says_of_foldlM` — statements add what each of them says.
-/

namespace PrefixScan.Toml

/-! ## Facts -/

/-- A step from a value to one inside of it. -/
inductive Step
  | key (name : String)
  | index (i : Nat)
deriving DecidableEq

/-- A value without what is inside of it. -/
inductive Shape
  | string (text : String)
  | integer (n : Int)
  | float (x : Real)
  | boolean (flag : Bool)
  | datetime (moment : Datetime)
  | array
  | table
  /-- An array of tables. -/
  | tables
deriving DecidableEq

namespace Value

/-- The shape of a value. -/
def shape : Value → Shape
  | string text => .string text
  | integer n => .integer n
  | float x => .float x
  | boolean flag => .boolean flag
  | datetime moment => .datetime moment
  | array false _ => .array
  | array true _ => .tables
  | table _ _ => .table

/-- The value has a shape at the end of a path. -/
inductive Says : Value → List Step → Shape → Prop
  | here (value : Value) : Says value [] value.shape
  | entry {origin : Origin} {entries : Table} {key : String} {value : Value} {path : List Step} {s : Shape}
      (hmem : (key, value) ∈ entries) (h : Says value path s) :
      Says (.table origin entries) (.key key :: path) s
  | item {items : List Value} {i : Nat} {value : Value} {path : List Step} {s : Shape}
      (hget : items[i]? = some value) (h : Says value path s) :
      Says (.array false items) (.index i :: path) s
  | next {items : List Value} {value : Value} {path : List Step} {s : Shape}
      (hmem : value ∈ items) (h : Says value path s) :
      Says (.array true items) path s

/-- Keys are distinct in every table, and an array of tables holds tables, at least one. -/
inductive WellFormed : Value → Prop
  | string (text : String) : WellFormed (.string text)
  | integer (n : Int) : WellFormed (.integer n)
  | float (x : Real) : WellFormed (.float x)
  | boolean (flag : Bool) : WellFormed (.boolean flag)
  | datetime (moment : Datetime) : WellFormed (.datetime moment)
  | array {items : List Value} (hitems : ∀ item ∈ items, WellFormed item) : WellFormed (.array false items)
  | tables {items : List Value} (hne : items ≠ []) (htables : ∀ item ∈ items, item.shape = .table)
      (hitems : ∀ item ∈ items, WellFormed item) : WellFormed (.array true items)
  | table {origin : Origin} {entries : Table} (hkeys : (entries.map Prod.fst).Nodup)
      (hentries : ∀ entry ∈ entries, WellFormed entry.2) : WellFormed (.table origin entries)

end Value

namespace Table

/-- The table has a value of a shape at the end of a path. -/
def Says (table : Table) : List Step → Shape → Prop
  | .key key :: path, s => ∃ value, (key, value) ∈ table ∧ value.Says path s
  | _, _ => False

/-- Keys are distinct, in the table and in every table inside of it. -/
structure WellFormed (table : Table) : Prop where
  keys : (table.map Prod.fst).Nodup
  values : ∀ entry ∈ table, entry.2.WellFormed

end Table

/-! ## Facts of the parts -/

theorem Value.says_table_iff {origin : Origin} {entries : Table} {path : List Step} {s : Shape} :
    (Value.table origin entries).Says path s ↔ (path = [] ∧ s = .table) ∨ entries.Says path s := by
  constructor
  · rintro (_ | ⟨hmem, h⟩)
    · exact .inl ⟨rfl, rfl⟩
    · exact .inr ⟨_, hmem, h⟩
  · rintro (⟨rfl, rfl⟩ | h)
    · exact .here (.table origin entries)
    · match path, h with
      | .key _ :: _, ⟨_, hmem, h⟩ => exact .entry hmem h

theorem Value.says_tables_iff {items : List Value} {path : List Step} {s : Shape} :
    (Value.array true items).Says path s ↔
      (path = [] ∧ s = .tables) ∨ ∃ item ∈ items, item.Says path s := by
  constructor
  · rintro (_ | _ | _ | ⟨hmem, h⟩)
    · exact .inl ⟨rfl, rfl⟩
    · exact .inr ⟨_, hmem, h⟩
  · rintro (⟨rfl, rfl⟩ | ⟨_, hmem, h⟩)
    · exact .here (.array true items)
    · exact .next hmem h

theorem Value.says_array_iff {items : List Value} {path : List Step} {s : Shape} :
    (Value.array false items).Says path s ↔ (path = [] ∧ s = .array) ∨
      ∃ i rest, path = .index i :: rest ∧ ∃ item, items[i]? = some item ∧ item.Says rest s := by
  constructor
  · rintro (_ | _ | ⟨hget, h⟩)
    · exact .inl ⟨rfl, rfl⟩
    · exact .inr ⟨_, _, rfl, _, hget, h⟩
  · rintro (⟨rfl, rfl⟩ | ⟨i, rest, rfl, item, hget, h⟩)
    · exact .here (.array false items)
    · exact .item hget h

theorem Value.wellFormed_table_iff {origin : Origin} {entries : Table} :
    (Value.table origin entries).WellFormed ↔ entries.WellFormed :=
  ⟨fun | .table hkeys hentries => ⟨hkeys, hentries⟩, fun h => .table h.keys h.values⟩

theorem Value.wellFormed_tables_iff {items : List Value} : (Value.array true items).WellFormed ↔
    items ≠ [] ∧ (∀ item ∈ items, item.shape = .table) ∧ ∀ item ∈ items, item.WellFormed :=
  ⟨fun | .tables hne htables hitems => ⟨hne, htables, hitems⟩,
    fun ⟨hne, htables, hitems⟩ => .tables hne htables hitems⟩

namespace Value

theorem wellFormed_newTable : (table .header []).WellFormed := .table List.nodup_nil (by simp)

theorem wellFormed_newTables : (array true [.table .header []]).WellFormed :=
  .tables (by simp) (by simp [shape]) (by simpa using wellFormed_newTable)

end Value

namespace Table

variable {table : Table} {key : String} {value : Value}

@[simp]
theorem says_nil (path : List Step) (s : Shape) : ¬ Says [] path s := by
  match path with
  | [] | .index _ :: _ => exact id
  | .key _ :: _ => simp [Says]

theorem says_append (first second : Table) (path : List Step) (s : Shape) :
    Says (first ++ second) path s ↔ first.Says path s ∨ second.Says path s := by
  match path with
  | [] | .index _ :: _ => simp [Says]
  | .key _ :: _ => simp [Says, or_and_right, exists_or]

theorem says_singleton (key : String) (value : Value) (path : List Step) (s : Shape) :
    Says [(key, value)] path s ↔ ∃ rest, path = .key key :: rest ∧ value.Says rest s := by
  match path with
  | [] | .index _ :: _ => simp [Says]
  | .key name :: rest =>
      simp only [Says, List.mem_singleton, Prod.mk.injEq, List.cons.injEq, Step.key.injEq]
      exact ⟨fun ⟨_, ⟨hkey, hvalue⟩, h⟩ => ⟨rest, ⟨hkey, rfl⟩, hvalue ▸ h⟩,
        fun ⟨_, ⟨hkey, hrest⟩, h⟩ => ⟨value, ⟨hkey, rfl⟩, hrest ▸ h⟩⟩

theorem says_cons (key : String) (value : Value) (table : Table) (path : List Step) (s : Shape) :
    Says ((key, value) :: table) path s ↔
      (∃ rest, path = .key key :: rest ∧ value.Says rest s) ∨ table.Says path s := by
  rw [← List.singleton_append, says_append, says_singleton]

/-! ## Reading entries -/

theorem get?_eq_none_iff : table.get? key = none ↔ key ∉ table.map Prod.fst := by
  simp only [get?, List.lookup_eq_none_iff, List.mem_map, not_exists, not_and, bne_iff_ne]
  exact forall₂_congr fun _ _ => ne_comm

theorem mem_of_get? (hget : table.get? key = some value) : (key, value) ∈ table := by
  obtain ⟨first, second, rfl, -⟩ := List.lookup_eq_some_iff.1 hget
  simp

/-- With distinct keys, an entry is found under its key. -/
theorem get?_eq_some_iff (hkeys : (table.map Prod.fst).Nodup) :
    table.get? key = some value ↔ (key, value) ∈ table := by
  refine ⟨mem_of_get?, fun hmem => ?_⟩
  obtain ⟨first, second, rfl⟩ := List.append_of_mem hmem
  refine List.lookup_eq_some_iff.2 ⟨first, second, rfl, fun entry hfirst => ?_⟩
  simp only [List.map_append, List.map_cons, List.nodup_append] at hkeys
  have hne := hkeys.2.2 entry.1 (List.mem_map_of_mem hfirst) key (by simp)
  exact bne_iff_ne.2 hne.symm

/-- What a table says below a key is what the value of the key says. -/
theorem says_key_iff (hkeys : (table.map Prod.fst).Nodup) (path : List Step) (s : Shape) :
    table.Says (.key key :: path) s ↔ ∃ value, table.get? key = some value ∧ value.Says path s := by
  simp only [Says, get?_eq_some_iff hkeys]

theorem mem_set_iff {before : Value} (hget : table.get? key = some before) (entry : String × Value) :
    entry ∈ table.set key value ↔ entry = (key, value) ∨ entry.1 ≠ key ∧ entry ∈ table := by
  have hmem : (key, before) ∈ table := mem_of_get? hget
  simp only [set, List.mem_map]
  constructor
  · rintro ⟨old, hold, rfl⟩
    by_cases hkey : old.1 = key
    · simp [hkey]
    · simp [hkey, hold]
  · rintro (rfl | ⟨hkey, hold⟩)
    · exact ⟨_, hmem, by simp⟩
    · exact ⟨entry, hold, by simp [hkey]⟩

theorem map_fst_set (table : Table) (key : String) (value : Value) :
    (table.set key value).map Prod.fst = table.map Prod.fst := by
  simp only [set, List.map_map]
  refine List.map_congr_left fun entry _ => ?_
  by_cases hkey : entry.1 = key <;> simp [hkey]

end Table

/-! ## Shapes from facts -/

/-- A value says its shape of itself, an array of tables says of itself that it is a table as well. -/
theorem Value.WellFormed.says_self_iff {value : Value} (hvalue : value.WellFormed) (s : Shape) :
    value.Says [] s ↔ s = value.shape ∨ value.shape = .tables ∧ s = .table := by
  constructor
  · rintro (_ | _ | _ | ⟨hmem, h⟩)
    · exact .inl rfl
    · obtain ⟨-, htables, -⟩ := wellFormed_tables_iff.1 hvalue
      have hitem := htables _ hmem
      cases h with
      | here => exact .inr ⟨rfl, hitem⟩
      | next => cases hitem
  · rintro (rfl | ⟨hshape, rfl⟩)
    · exact .here value
    · cases hvalue with
      | tables hne htables _ =>
          obtain ⟨first, others, rfl⟩ := List.exists_cons_of_ne_nil hne
          exact .next (List.mem_cons_self ..) (htables first (by simp) ▸ .here first)
      | _ => cases hshape

/-- What is said of two values that need not be there determines their shapes. -/
theorem map_shape_eq_of_facts {first second : Option Value} (hfirst : ∀ value ∈ first, value.WellFormed)
    (hsecond : ∀ value ∈ second, value.WellFormed)
    (hfacts : ∀ s, (∃ value ∈ first, value.Says [] s) ↔ ∃ value ∈ second, value.Says [] s) :
    first.map Value.shape = second.map Value.shape := by
  -- An array of tables says two shapes of itself, the second one does not count.
  have hshape : ∀ found : Option Value, (∀ value ∈ found, value.WellFormed) → ∀ s,
      found.map Value.shape = some s ↔ (∃ value ∈ found, value.Says [] s) ∧
        (s = .table → ¬ ∃ value ∈ found, value.Says [] .tables) := by
    intro found hfound s
    cases found with
    | none => simp
    | some value =>
        simp only [Option.mem_def, Option.some.injEq, exists_eq_left', Option.map_some,
          (hfound value rfl).says_self_iff]
        grind
  refine Option.ext fun s => ?_
  rw [hshape first hfirst, hshape second hsecond, hfacts, hfacts]

/-! ## Additions -/

/-- The value with the facts of another one added. -/
structure Value.Extends (before after content : Value) : Prop where
  wellFormed : after.WellFormed
  facts (path : List Step) (s : Shape) : after.Says path s ↔ before.Says path s ∨ content.Says path s

/-- The table with the facts of another one added. -/
structure Table.Extends (before after content : Table) : Prop where
  wellFormed : after.WellFormed
  facts (path : List Step) (s : Shape) : after.Says path s ↔ before.Says path s ∨ content.Says path s

namespace Table

variable {before after content : Table} {key : String} {value : Value}

theorem WellFormed.nil : WellFormed [] := ⟨List.nodup_nil, by simp⟩

/-- A table in which a key is missing is extended by an entry for the key. -/
theorem WellFormed.extends_push (hbefore : before.WellFormed) (hget : before.get? key = none)
    (hvalue : value.WellFormed) : before.Extends (before.push key value) [(key, value)] where
  wellFormed := by
    constructor
    · have habsent : key ∉ before.map Prod.fst := get?_eq_none_iff.1 hget
      simp only [push, List.map_append, List.map_cons, List.map_nil]
      refine List.nodup_append.2 ⟨hbefore.keys, by simp, fun old hold new hnew => ?_⟩
      obtain rfl := List.mem_singleton.1 hnew
      exact fun heq => habsent (heq ▸ hold)
    · intro entry hmem
      obtain hold | hnew := List.mem_append.1 hmem
      · exact hbefore.values entry hold
      · obtain rfl := List.mem_singleton.1 hnew
        exact hvalue
  facts := says_append before [(key, value)]

/-- A table is extended by what extends one of its values. -/
theorem WellFormed.extends_set {old new added : Value} (hbefore : before.WellFormed)
    (hget : before.get? key = some old) (hnew : old.Extends new added) :
    before.Extends (before.set key new) [(key, added)] where
  wellFormed := by
    constructor
    · rw [map_fst_set]
      exact hbefore.keys
    · intro entry hmem
      obtain rfl | ⟨-, hold⟩ := (mem_set_iff hget entry).1 hmem
      · exact hnew.wellFormed
      · exact hbefore.values entry hold
  facts := by
    intro path s
    have hkeys : ((before.set key new).map Prod.fst).Nodup := by
      rw [map_fst_set]
      exact hbefore.keys
    rw [says_singleton]
    match path with
    | [] | .index _ :: _ => simp [Says]
    | .key name :: rest =>
        simp only [Says, mem_set_iff hget]
        by_cases hname : name = key
        · subst hname
          have hold : ∀ value, (name, value) ∈ before ↔ value = old := fun value => by
            rw [← get?_eq_some_iff hbefore.keys, hget, Option.some_inj, eq_comm]
          simp [hold, hnew.facts]
        · simp [hname]

theorem Extends.congr {content' : Table} (h : before.Extends after content)
    (hfacts : ∀ path s, content.Says path s ↔ content'.Says path s) : before.Extends after content' :=
  ⟨h.wellFormed, fun path s => by rw [h.facts, hfacts]⟩

/-- The facts of a table with one entry depend on those of the entry alone. -/
theorem says_singleton_congr {value' : Value} (h : ∀ path s, value.Says path s ↔ value'.Says path s)
    (path : List Step) (s : Shape) : Says [(key, value)] path s ↔ Says [(key, value')] path s := by
  simp only [says_singleton, h]

/-- A table in which a key is missing is extended by a new table under the key. -/
theorem WellFormed.extends_push_new {entries : Table} {origin : Origin} (hbefore : before.WellFormed)
    (hget : before.get? key = none) (hentries : Extends [] entries content) :
    before.Extends (before.push key (.table origin entries)) [(key, .table .implied content)] := by
  refine (hbefore.extends_push hget (Value.wellFormed_table_iff.2 hentries.wellFormed)).congr
    (says_singleton_congr fun path s => ?_)
  simp [Value.says_table_iff, hentries.facts]

end Table

/-- A table extends another one as the value that it is. -/
theorem Table.Extends.value {before after content : Table} (h : before.Extends after content)
    (origin origin' : Origin) :
    (Value.table origin before).Extends (.table origin after) (.table origin' content) where
  wellFormed := Value.wellFormed_table_iff.2 h.wellFormed
  facts path s := by
    simp only [Value.says_table_iff, h.facts]
    grind

/-! ## Definitions -/

/-- The table with nothing but another table, at the end of a path of keys. -/
def Table.nest (content : Table) : List String → Table
  | [] => content
  | part :: path => [(part, .table .implied (content.nest path))]

theorem Table.nest_append (content : Table) (first second : List String) :
    content.nest (first ++ second) = (content.nest second).nest first := by
  induction first with
  | nil => rfl
  | cons part first ih => rw [List.cons_append, nest, nest, ih]

/-- A table at the end of a path says that there are tables on the way, and what it says itself. -/
theorem Table.says_nest_iff (content : Table) (names : List String) (path : List Step) (s : Shape) :
    (content.nest names).Says path s ↔ (s = .table ∧ path ≠ [] ∧ path <+: names.map .key) ∨
      ∃ rest, path = names.map .key ++ rest ∧ content.Says rest s := by
  induction names generalizing path with
  | nil => simp +contextual [nest]
  | cons part names ih =>
      simp only [nest, says_singleton, Value.says_table_iff, ih, List.map_cons, List.cons_append]
      constructor
      · rintro ⟨rest, rfl, ⟨rfl, rfl⟩ | ⟨rfl, -, hprefix⟩ | ⟨rest, rfl, h⟩⟩
        · exact .inl ⟨rfl, by simp, by simp⟩
        · exact .inl ⟨rfl, by simp, by simpa using hprefix⟩
        · exact .inr ⟨rest, rfl, h⟩
      · rintro (⟨rfl, hne, hprefix⟩ | ⟨rest, rfl, h⟩)
        · obtain ⟨first, rest, rfl⟩ := List.exists_cons_of_ne_nil hne
          obtain ⟨rfl, hrest⟩ := List.cons_prefix_cons.1 hprefix
          cases rest with
          | nil => exact ⟨[], rfl, .inl ⟨rfl, rfl⟩⟩
          | cons next rest => exact ⟨_, rfl, .inr (.inl ⟨rfl, by simp, hrest⟩)⟩
        · exact ⟨_, rfl, .inr (.inr ⟨rest, rfl, h⟩)⟩

/-- An array of tables is extended by what extends its last table. -/
theorem Value.WellFormed.extends_last {front : List Value} {last next content : Value}
    (hvalue : (Value.array true (front ++ [last])).WellFormed) (hnext : last.Extends next content)
    (htable : next.shape = .table) :
    (Value.array true (front ++ [last])).Extends (.array true (front ++ [next])) content where
  wellFormed := by
    obtain ⟨-, htables, hitems⟩ := wellFormed_tables_iff.1 hvalue
    refine .tables (by simp) (fun item hmem => ?_) (fun item hmem => ?_)
    all_goals obtain hfront | hlast := List.mem_append.1 hmem
    · exact htables item (List.mem_append_left _ hfront)
    · exact List.mem_singleton.1 hlast ▸ htable
    · exact hitems item (List.mem_append_left _ hfront)
    · exact List.mem_singleton.1 hlast ▸ hnext.wellFormed
  facts path s := by
    simp only [says_tables_iff, List.mem_append, List.mem_singleton, or_and_right, exists_or,
      exists_eq_left, hnext.facts, or_assoc]

/-- What a header reaches through a value is a table, and extending it extends the value. -/
theorem Value.WellFormed.throughHeader {value : Value} (hvalue : value.WellFormed) {entries : Table}
    {rebuild : Table → Value} (h : value.throughHeader = some (entries, rebuild)) :
    entries.WellFormed ∧ ∀ after content, entries.Extends after content →
      value.Extends (rebuild after) (.table .implied content) := by
  unfold Value.throughHeader at h
  split at h
  · cases h
  · cases h
    exact ⟨wellFormed_table_iff.1 hvalue, fun _ _ hafter => hafter.value _ _⟩
  · next items =>
      split at h
      · next origin entries hlast =>
          cases h
          obtain ⟨front, rfl⟩ := List.getLast?_eq_some_iff.1 hlast
          refine ⟨?_, fun after content hafter => ?_⟩
          · obtain ⟨-, -, hitems⟩ := wellFormed_tables_iff.1 hvalue
            exact wellFormed_table_iff.1 (hitems (.table origin entries) (by simp))
          · rw [List.dropLast_concat]
            exact hvalue.extends_last (hafter.value origin .implied) rfl
      · cases h
  · cases h

/-- What a dotted key reaches through a value, a header reaches as well, unless it is a table in braces, which
neither reaches. -/
theorem Value.throughHeader_of_throughDotted {value : Value} {final : Bool} {entries : Table}
    {rebuild : Table → Value} (h : value.throughDotted final = some (entries, rebuild)) :
    value.throughHeader = some (entries, rebuild) := by
  unfold throughDotted at h
  split at h
  · exact h
  · split at h
    · cases h
    · exact h
  · split at h
    · cases h
    · exact h
  · cases h

namespace Table

variable {before after : Table} {key : String} {value : Value}

/-- A dotted key adds its value. -/
theorem WellFormed.extends_define (hbefore : before.WellFormed) (hvalue : value.WellFormed)
    {path : List String} (h : before.define key value path = some after) :
    before.Extends after (nest [(key, value)] path) := by
  induction path generalizing before after with
  | nil =>
      unfold define at h
      split at h
      · cases h
      · next hget =>
          obtain rfl := Option.some.inj h
          exact hbefore.extends_push hget hvalue
  | cons part path ih =>
      unfold define at h
      split at h
      · next hget =>
          split at h
          · next entries hentries =>
              obtain rfl := Option.some.inj h
              exact hbefore.extends_push_new hget (ih .nil hentries)
          · cases h
      · next child hget =>
          split at h
          · next entries rebuild hchild =>
              split at h
              · next inner hinner =>
                  obtain rfl := Option.some.inj h
                  obtain ⟨hentries, hrebuild⟩ := (hbefore.values _ (mem_of_get? hget)).throughHeader
                    (Value.throughHeader_of_throughDotted hchild)
                  exact hbefore.extends_set hget (hrebuild _ _ (ih hentries hinner))
              · cases h
          · cases h

/-- What is added to the table that a header names is added below the header. -/
theorem WellFormed.extends_within {change : Table → Option Table} {content : Table}
    (hchange : ∀ before after, WellFormed before → change before = some after →
      before.Extends after content)
    (hbefore : before.WellFormed) {path : List String} (h : before.within change path = some after) :
    before.Extends after (content.nest path) := by
  induction path generalizing before after with
  | nil => exact hchange before after hbefore h
  | cons part path ih =>
      unfold within at h
      split at h
      · next hget =>
          split at h
          · next entries hentries =>
              obtain rfl := Option.some.inj h
              exact hbefore.extends_push_new hget (ih .nil hentries)
          · cases h
      · next child hget =>
          split at h
          · next entries rebuild hchild =>
              split at h
              · next inner hinner =>
                  obtain rfl := Option.some.inj h
                  obtain ⟨hentries, hrebuild⟩ := (hbefore.values _ (mem_of_get? hget)).throughHeader hchild
                  exact hbefore.extends_set hget (hrebuild _ _ (ih hentries hinner))
              · cases h
          · cases h

/-- A header adds a table, or gives one that was implied a header of its own. -/
theorem WellFormed.extends_declare (hbefore : before.WellFormed)
    (h : before.declare key = some after) : before.Extends after [(key, .table .header [])] := by
  unfold declare at h
  split at h
  · next hget =>
      obtain rfl := Option.some.inj h
      exact hbefore.extends_push hget Value.wellFormed_newTable
  · next entries hget =>
      obtain rfl := Option.some.inj h
      have hentries := hbefore.values _ (mem_of_get? hget)
      refine hbefore.extends_set hget ⟨?_, fun path s => ?_⟩
      · exact Value.wellFormed_table_iff.2 (Value.wellFormed_table_iff.1 hentries)
      · simp only [Value.says_table_iff, says_nil, or_false]
        grind
  · cases h

/-- A header of an array of tables adds a table to it. -/
theorem WellFormed.extends_declareNext (hbefore : before.WellFormed)
    (h : before.declareNext key = some after) :
    before.Extends after [(key, .array true [.table .header []])] := by
  unfold declareNext at h
  split at h
  · next hget =>
      obtain rfl := Option.some.inj h
      exact hbefore.extends_push hget Value.wellFormed_newTables
  · next items hget =>
      obtain rfl := Option.some.inj h
      obtain ⟨-, htables, hitems⟩ :=
        Value.wellFormed_tables_iff.1 (hbefore.values _ (mem_of_get? hget))
      refine hbefore.extends_set hget ⟨Value.wellFormed_tables_iff.2 ⟨by simp, ?_, ?_⟩, fun path s => ?_⟩
      · simpa [or_imp, forall_and, Value.shape] using htables
      · simpa [or_imp, forall_and, Value.wellFormed_newTable] using hitems
      · simp only [Value.says_tables_iff, List.mem_append, or_and_right, exists_or]
        grind
  · cases h

end Table

/-! ## Statements -/

namespace Statement

/-- The keys from the root to the table in which a statement defines something. -/
def way : Statement → List String
  | .pair header path _ _ => header ++ path
  | .table path _ | .nextTable path _ => path

/-- The key that a statement defines there. -/
def key : Statement → String
  | .pair _ _ key _ | .table _ key | .nextTable _ key => key

/-- The value that a statement gives its key, if nothing else does. -/
def content : Statement → Value
  | .pair _ _ _ value => value
  | .table _ _ => .table .header []
  | .nextTable _ _ => .array true [.table .header []]

/-- The path from the root to what a statement defines. -/
def path (found : Statement) : List Step := (found.way ++ [found.key]).map .key

/-- The table that a statement defines on its own. -/
def alone (found : Statement) : Table := Table.nest [(found.key, found.content)] found.way

/-- A statement says that there are tables on its way, and what its value says. -/
theorem says_alone_iff (found : Statement) (path : List Step) (s : Shape) :
    found.alone.Says path s ↔
      (s = .table ∧ path ≠ [] ∧ path <+: found.way.map .key) ∨
      ∃ rest, path = found.path ++ rest ∧ found.content.Says rest s := by
  rw [alone, Table.says_nest_iff]
  refine or_congr_right ⟨?_, ?_⟩
  · rintro ⟨rest, rfl, h⟩
    obtain ⟨rest, rfl, hcontent⟩ := (Table.says_singleton _ _ _ _).1 h
    exact ⟨rest, by simp [Statement.path], hcontent⟩
  · rintro ⟨rest, rfl, h⟩
    exact ⟨.key found.key :: rest, by simp [Statement.path], (Table.says_singleton _ _ _ _).2 ⟨rest, rfl, h⟩⟩

/-- A statement adds what it says on its own. -/
theorem extends_apply {found : Statement} (hfound : found.content.WellFormed) {before after : Table}
    (hbefore : before.WellFormed) (h : found.apply before = some after) :
    before.Extends after found.alone := by
  cases found with
  | pair header path key value =>
      rw [alone, way, Table.nest_append]
      exact hbefore.extends_within (fun _ _ hinner => hinner.extends_define hfound) h
  | table path key => exact hbefore.extends_within (fun _ _ hinner => hinner.extends_declare) h
  | nextTable path key => exact hbefore.extends_within (fun _ _ hinner => hinner.extends_declareNext) h

/-- Statements, one after the other, add what each of them says on its own. -/
theorem says_of_foldlM {found : List Statement} (hfound : ∀ each ∈ found, each.content.WellFormed)
    {before after : Table} (hbefore : before.WellFormed) (h : found.foldlM apply before = some after) :
    after.WellFormed ∧ ∀ path s, after.Says path s ↔
      before.Says path s ∨ ∃ each ∈ found, each.alone.Says path s := by
  induction found generalizing before with
  | nil =>
      obtain rfl := Option.some.inj h
      exact ⟨hbefore, by simp⟩
  | cons first others ih =>
      rw [List.foldlM_cons, Option.bind_eq_bind, Option.bind_eq_some_iff] at h
      obtain ⟨between, hfirst, hothers⟩ := h
      have hbetween := extends_apply (hfound first (by simp)) hbefore hfirst
      obtain ⟨hafter, hfacts⟩ :=
        ih (fun each hmem => hfound each (List.mem_cons_of_mem _ hmem)) hbetween.wellFormed hothers
      exact ⟨hafter, fun path s => by simp [hfacts, hbetween.facts, or_assoc]⟩

end Statement

end PrefixScan.Toml
