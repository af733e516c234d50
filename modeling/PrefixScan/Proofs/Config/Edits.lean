import PrefixScan.Proofs.Config.Meaning
import Mathlib.Logic.Relation

/-!
# Edits of configuration documents

Statements of a document may be put into another order, and unknown keys and tables may be added, also in
tables written in braces.  None of this changes what the document says where values are read, so as long as
the document stays valid, it does not change the configuration.

## Main definitions

* `Config.Unknown` — nothing is read at a path or below it.
* `Config.ValueEdited`, `Config.Edited` — entries reordered, or unknown ones inserted, in a value and in a
  document.

## Main results

* `Config.Edited.saysSame`, `Config.saysSame_of_eqvGen` — an edit changes nothing where values are read, nor do
  any number of them.
* `Config.load_congr` — documents that are edits of each other have the same configuration or defect.
* `Config.document_meaning` — which documents have a configuration, which one, and what does not change it.
-/

namespace PrefixScan.Config

open Toml (Origin Shape Statement Step Table Value)

/-- No value is read at the path or below it. -/
def Unknown (path : List Step) : Prop := ∀ rest, ¬ Reads (path ++ rest)

/-- A value at a path, edited: the entries of a table in another order, an unknown entry inserted, or one such
edit of a value inside. -/
inductive ValueEdited : List Step → Value → Value → Prop
  | permute {path : List Step} {origin : Origin} {before after : Table} (h : before.Perm after) :
      ValueEdited path (.table origin before) (.table origin after)
  | insert {path : List Step} {origin : Origin} {entries : Table} {key : String} {value : Value}
      (h : Unknown (path ++ [.key key])) :
      ValueEdited path (.table origin entries) (.table origin ((key, value) :: entries))
  | entry {path : List Step} {origin : Origin} {entries : Table} {key : String} {before after : Value}
      (h : ValueEdited (path ++ [.key key]) before after) :
      ValueEdited path (.table origin ((key, before) :: entries)) (.table origin ((key, after) :: entries))
  | item {path : List Step} {front back : List Value} {before after : Value}
      (h : ValueEdited (path ++ [.index front.length]) before after) :
      ValueEdited path (.array false (front ++ before :: back)) (.array false (front ++ after :: back))

/-- The statements of a document, edited: in another order, an unknown one inserted, or its value edited.  The
tables on the way to an inserted key are unknown as well, or the profiling table, or there already. -/
inductive Edited : List Statement → List Statement → Prop
  | permute {before after : List Statement} (h : before.Perm after) : Edited before after
  | insert {found : Statement} {others : List Statement} (hkey : Unknown found.path)
      (hway : ∀ way, way ≠ [] → way <+: found.way.map .key →
        Unknown way ∨ way = [.key "profiling"] ∨ ∃ each ∈ others, each.alone.Says way .table) :
      Edited others (found :: others)
  | value {header path : List String} {key : String} {before after : Value} {others : List Statement}
      (h : ValueEdited ((header ++ path ++ [key]).map .key) before after) :
      Edited (.pair header path key before :: others) (.pair header path key after :: others)

/-- An edited value says the same wherever values are read. -/
theorem ValueEdited.says_iff {path : List Step} {before after : Value} (h : ValueEdited path before after)
    (rest : List Step) (s : Shape) (hmatters : Matters (path ++ rest) s) :
    before.Says rest s ↔ after.Says rest s := by
  induction h generalizing rest with
  | permute h =>
      rw [Value.says_table_iff, Value.says_table_iff]
      refine or_congr_right ?_
      match rest with
      | [] | .index _ :: _ => rfl
      | .key name :: rest => exact exists_congr fun _ => and_congr_left fun _ => h.mem_iff
  | insert hunknown =>
      rw [Value.says_table_iff, Value.says_table_iff, Table.says_cons]
      refine or_congr_right (iff_or_self.2 ?_)
      rintro ⟨rest, rfl, -⟩
      exact absurd (List.append_cons .. ▸ hmatters.1) (hunknown rest)
  | entry h ih =>
      rw [Value.says_table_iff, Value.says_table_iff, Table.says_cons, Table.says_cons]
      refine or_congr_right (or_congr_left (exists_congr fun inner => and_congr_right ?_))
      rintro rfl
      exact ih inner (List.append_cons .. ▸ hmatters)
  | @item path front back before after h ih =>
      rw [Value.says_array_iff, Value.says_array_iff]
      refine or_congr (by rfl) (exists_congr fun i => exists_congr fun inner => and_congr_right ?_)
      rintro rfl
      by_cases hi : i = front.length
      · subst hi
        simpa using ih inner (List.append_cons .. ▸ hmatters)
      · have hother : (front ++ before :: back)[i]? = (front ++ after :: back)[i]? := by
          rw [List.getElem?_append, List.getElem?_append, List.getElem?_cons, List.getElem?_cons]
          grind
        rw [hother]

/-- What the statements of a document say. -/
def SaidBy (found : List Statement) (path : List Step) (s : Shape) : Prop :=
  ∃ each ∈ found, each.alone.Says path s

theorem saidBy_cons (found : Statement) (others : List Statement) (path : List Step) (s : Shape) :
    SaidBy (found :: others) path s ↔ found.alone.Says path s ∨ SaidBy others path s := by
  simp only [SaidBy, List.mem_cons, or_and_right, exists_or, exists_eq_left]

/-- Edited statements say the same wherever values are read. -/
theorem Edited.saysSame {before after : List Statement} (h : Edited before after) :
    SaysSame (SaidBy before) (SaidBy after) := by
  intro path s hmatters
  cases h with
  | permute h => exact exists_congr fun _ => and_congr_left fun _ => h.mem_iff
  | insert hkey hway =>
      rw [saidBy_cons]
      refine iff_or_self.2 fun h => ?_
      obtain ⟨rfl, hne, hprefix⟩ | ⟨rest, rfl, -⟩ := (Statement.says_alone_iff _ _ _).1 h
      · obtain hunknown | rfl | hothers := hway path hne hprefix
        · exact absurd ((List.append_nil path).symm ▸ hmatters.1) (hunknown [])
        · exact absurd ⟨rfl, rfl⟩ hmatters.2
        · exact hothers
      · exact absurd hmatters.1 (hkey rest)
  | value h =>
      rw [saidBy_cons, saidBy_cons]
      refine or_congr_left ?_
      simp only [Statement.says_alone_iff, Statement.way, Statement.path, Statement.key, Statement.content]
      refine or_congr_right (exists_congr fun rest => and_congr_right ?_)
      rintro rfl
      exact h.says_iff rest s hmatters

/-- Any number of edits, forth and back, change nothing where values are read. -/
theorem saysSame_of_eqvGen {before after : List Statement} (h : Relation.EqvGen Edited before after) :
    SaysSame (SaidBy before) (SaidBy after) := by
  intro path s hmatters
  induction h with
  | rel _ _ h => exact h.saysSame path s hmatters
  | refl => rfl
  | symm _ _ _ ih => exact ih.symm
  | trans _ _ _ _ _ ih ih' => exact ih.trans ih'

/-- A path that starts with another key than those of the fields is unknown. -/
theorem unknown_of_name {name : String} (hname : name ∉ ["granularity", "cube_dim", "profiling"])
    (path : List Step) : Unknown (.key name :: path) := by
  intro rest hreads
  generalize hpath : Step.key name :: path ++ rest = whole at hreads
  cases hreads <;> simp_all

/-- A statement may be inserted if its first key is not that of a field. -/
theorem Edited.insert_of_name {found : Statement} {others : List Statement} {name : String}
    (hhead : (found.way ++ [found.key]).head? = some name)
    (hname : name ∉ ["granularity", "cube_dim", "profiling"]) : Edited others (found :: others) := by
  obtain ⟨names, hnames⟩ := List.head?_eq_some_iff.1 hhead
  refine .insert ?_ fun way hne hprefix => .inl ?_
  · rw [Statement.path, hnames]
    exact unknown_of_name hname _
  · have hpath : way <+: .key name :: names.map Step.key := by
      rw [← List.map_cons, ← hnames, List.map_append]
      exact hprefix.trans (List.prefix_append _ _)
    obtain ⟨first, rest, rfl⟩ := List.exists_cons_of_ne_nil hne
    obtain ⟨rfl, -⟩ := List.cons_prefix_cons.1 hpath
    exact unknown_of_name hname rest

/-- Documents whose statements are edits of each other have the same configuration, or the same defect. -/
theorem load_congr {before after : String} {found found' : List Statement}
    (hfound : Toml.statements before = some found) (hfound' : Toml.statements after = some found')
    (hedited : Relation.EqvGen Edited found found') (hbefore : (Toml.parse before).isSome)
    (hafter : (Toml.parse after).isSome) : load before = load after := by
  obtain ⟨table, htable⟩ := Option.isSome_iff_exists.1 hbefore
  obtain ⟨table', htable'⟩ := Option.isSome_iff_exists.1 hafter
  obtain ⟨hwell, hfacts⟩ := Toml.parse_facts hfound htable
  obtain ⟨hwell', hfacts'⟩ := Toml.parse_facts hfound' htable'
  have htables : SaysSame table.Says table'.Says := fun path s hmatters => by
    rw [hfacts, hfacts']
    exact saysSame_of_eqvGen hedited path s hmatters
  rw [load, load, ofDocument, ofDocument, htable, htable']
  exact congrArg (Except.mapError LoadError.document) (ofTable_congr hwell hwell' htables)

/-! ## Meaning -/

/-- A document has a configuration if it is valid and its table gives the configuration. -/
theorem load_eq_ok_iff {document : String} {config : Config} : load document = .ok config ↔
    ∃ table, Toml.parse document = some table ∧ Given table config := by
  have hload : load document = .ok config ↔ ofDocument document = .ok config := by
    rw [load]
    cases ofDocument document with
    | error defect => exact ⟨nofun, nofun⟩
    | ok found => exact ⟨fun h => congrArg _ (Except.ok.inj h), fun h => congrArg _ (Except.ok.inj h)⟩
  rw [hload, ofDocument]
  cases Toml.parse document with
  | none => exact ⟨nofun, nofun⟩
  | some table => simp only [Option.some.injEq, exists_eq_left', ofTable_eq_ok_iff]

/-- A valid document has a configuration if each of the three fields is absent or has a value of its kind, each
on its own, and then these are the fields of the configuration.  An invalid one is an error of the
configuration.  As long as a document stays valid, its statements may be put into another order, and unknown
ones may be inserted. -/
theorem document_meaning :
    (∀ document config, load document = .ok config ↔
      ∃ table, Toml.parse document = some table ∧ Given table config) ∧
    (∀ document table, Toml.parse document = some table →
      ((∃ config, load document = .ok config) ↔
        (∃ n, FieldGiven standard.granularity IsCount (table.get? "granularity") n) ∧
        (∃ n, FieldGiven standard.cubeDim IsCount (table.get? "cube_dim") n) ∧
        ∃ flag, FieldGiven standard.profiling IsProfiling (table.get? "profiling") flag)) ∧
    (∀ document, Toml.parse document = none →
      (load document).mapError LoadError.toScanError = .error (.config DocumentDefect.invalid.reason)) ∧
    (∀ before after found found', Toml.statements before = some found →
      Toml.statements after = some found' → Relation.EqvGen Edited found found' →
      (Toml.parse before).isSome → (Toml.parse after).isSome → load before = load after) := by
  refine ⟨fun _ _ => load_eq_ok_iff, fun document table htable => ?_, fun document hinvalid => ?_,
    fun _ _ _ _ => load_congr⟩
  · simp only [load_eq_ok_iff, htable, Option.some.injEq, exists_eq_left']
    constructor
    · rintro ⟨config, hgranularity, hcube, hprofiling⟩
      exact ⟨⟨_, hgranularity⟩, ⟨_, hcube⟩, ⟨_, hprofiling⟩⟩
    · rintro ⟨⟨_, hgranularity⟩, ⟨_, hcube⟩, ⟨_, hprofiling⟩⟩
      exact ⟨⟨_, _, _⟩, hgranularity, hcube, hprofiling⟩
  · rw [load, ofDocument, hinvalid]
    rfl

/-- A document with one field, an invalid one, and one with unknown keys and tables next to the same one in
another order without them. -/
theorem document_meaning_two : (∃ config, load "granularity = 8\n" = .ok config) ∧
    (load "granularity =").mapError LoadError.toScanError = .error (.config DocumentDefect.invalid.reason) ∧
    load "granularity = 8\nprofiling.enabled = true\n" =
      load ("profiling.enabled = true\ngranularity = 8\nextra.deep = [1, 2]\n" ++
        "[other]\ngranularity = \"big\"\n") := by
  obtain ⟨-, hreads, hinvalid, hedited⟩ := document_meaning
  have hfields := hreads "granularity = 8\n" [("granularity", .integer 8)] rfl
  refine ⟨hfields.2 ⟨⟨8, .present rfl⟩, ⟨_, .absent⟩, ⟨_, .absent⟩⟩, hinvalid _ rfl, ?_⟩
  let extra : Statement := .pair [] ["extra"] "deep" (.array false [.integer 1, .integer 2])
  let size : Statement := .pair ["other"] [] "granularity" (.string "big")
  have hextra (others : List Statement) : Edited others (extra :: others) :=
    .insert_of_name rfl (by decide)
  have hother (others : List Statement) : Edited others (.table [] "other" :: others) :=
    .insert_of_name rfl (by decide)
  have hsize (others : List Statement) : Edited others (size :: others) :=
    .insert_of_name rfl (by decide)
  refine hedited _ _ _ _ rfl rfl ?_ rfl rfl
  refine .trans _ _ _ (.rel _ _ (hextra _)) ?_
  refine .trans _ _ _ (.rel _ _ (hother _)) ?_
  refine .trans _ _ _ (.rel _ _ (hsize _)) ?_
  exact .rel _ _ (.permute (List.reverse_perm _).symm)

end PrefixScan.Config
