import PrefixScan.Config.File
import PrefixScan.Proofs.Submission
import PrefixScan.Proofs.Toml.Reading

/-!
# The meaning of a configuration document

Three fields of a document count, each on its own: an absent one takes its default, a present one has to be a
value of its kind.  Five paths are read for them, so whatever a document says elsewhere, and in whichever
order it says things, does not matter.

## Main definitions

* `Config.Given` — a table gives a configuration.
* `Config.Reads`, `Config.Matters` — where a value is read, and which shapes of it matter.
* `Config.SaysSame` — the same is said wherever values are read.

## Main results

* `Config.ofTable_eq_ok_iff` — the configuration of a table is the one that it gives.
* `Config.ofTable_congr` — tables that say the same where values are read have the same configuration.
-/

namespace PrefixScan.Config

open Toml (Origin Shape Statement Step Table Value)

/-! ## What a table gives -/

/-- A field need not be there: it is absent and takes its default, or it is present as a value that stands
for it. -/
inductive FieldGiven {β : Type} (otherwise : β) (stands : Value → β → Prop) : Option Value → β → Prop
  | absent : FieldGiven otherwise stands none otherwise
  | present {value : Value} {x : β} (h : stands value x) : FieldGiven otherwise stands (some value) x

/-- A count is an integer of 32 bits. -/
def IsCount (value : Value) (n : Index) : Prop := value = .integer n.toNat

/-- A switch is a boolean. -/
def IsSwitch (value : Value) (flag : Bool) : Prop := value = .boolean flag

/-- The profiling table has its switch under a key, or as the first item of an array.  A date or time is a
table without the switch. -/
inductive IsProfiling : Value → Bool → Prop
  | table {origin : Origin} {entries : Table} {flag : Bool}
      (h : FieldGiven standard.profiling IsSwitch (entries.get? "enabled") flag) :
      IsProfiling (.table origin entries) flag
  | array {growing : Bool} {items : List Value} {flag : Bool}
      (h : FieldGiven standard.profiling IsSwitch items.head? flag) : IsProfiling (.array growing items) flag
  | datetime (moment : Toml.Datetime) : IsProfiling (.datetime moment) standard.profiling

/-- Every field of a configuration is given by the table. -/
structure Given (table : Table) (config : Config) : Prop where
  granularity : FieldGiven standard.granularity IsCount (table.get? "granularity") config.granularity
  cubeDim : FieldGiven standard.cubeDim IsCount (table.get? "cube_dim") config.cubeDim
  profiling : FieldGiven standard.profiling IsProfiling (table.get? "profiling") config.profiling

theorem countOf?_eq_some_iff {value : Value} {n : Index} : countOf? value = some n ↔ IsCount value n := by
  cases value with
  | integer m =>
      simp only [countOf?, Option.ite_none_right_eq_some, IsCount, Value.integer.injEq, Option.some.injEq]
      constructor
      · rintro ⟨hfits, rfl⟩
        exact hfits.symm
      · rintro rfl
        have hword : BitVec.ofInt 32 (n.toNat : Int) = n := by
          rw [BitVec.ofInt_natCast, BitVec.ofNat_toNat, BitVec.setWidth_eq]
        exact ⟨by rw [hword], hword⟩
  | _ => simp [countOf?, IsCount]

theorem switchOf?_eq_some_iff {value : Value} {flag : Bool} :
    switchOf? value = some flag ↔ IsSwitch value flag := by
  cases value <;> simp [switchOf?, IsSwitch]

section Field

variable {β : Type} {otherwise x : β} {read : Value → Option β} {stands : Value → β → Prop}

theorem orDefault_eq_some_iff (hread : ∀ value x, read value = some x ↔ stands value x)
    {found : Option Value} :
    orDefault otherwise read found = some x ↔ FieldGiven otherwise stands found x := by
  cases found with
  | none =>
      rw [orDefault, Option.some_inj]
      exact ⟨fun h => h ▸ .absent, fun | .absent => rfl⟩
  | some value =>
      rw [orDefault, hread]
      exact ⟨.present, fun | .present h => h⟩

theorem field_eq_ok_iff (hread : ∀ value x, read value = some x ↔ stands value x) {table : Table}
    {key : String} : field table key otherwise read = .ok x ↔
      FieldGiven otherwise stands (table.get? key) x := by
  rw [← orDefault_eq_some_iff hread, field]
  cases orDefault otherwise read (table.get? key) <;> simp

end Field

theorem profilingOf?_eq_some_iff {value : Value} {flag : Bool} :
    profilingOf? value = some flag ↔ IsProfiling value flag := by
  have hswitch (found : Option Value) :
      orDefault false switchOf? found = some flag ↔ FieldGiven standard.profiling IsSwitch found flag :=
    orDefault_eq_some_iff fun _ _ => switchOf?_eq_some_iff
  cases value with
  | table origin entries =>
      rw [profilingOf?, hswitch]
      exact ⟨.table, fun | .table h => h⟩
  | array growing items =>
      rw [profilingOf?, hswitch]
      exact ⟨.array, fun | .array h => h⟩
  | datetime moment =>
      rw [profilingOf?, Option.some_inj]
      exact ⟨fun h => h ▸ .datetime moment, fun | .datetime _ => rfl⟩
  | _ =>
      refine ⟨fun h => ?_, fun h => ?_⟩
      all_goals cases h

/-- The configuration of a table is the one whose fields it gives. -/
theorem ofTable_eq_ok_iff {table : Table} {config : Config} :
    ofTable table = .ok config ↔ Given table config := by
  simp only [ofTable, bind_eq_ok, field_eq_ok_iff fun _ _ => countOf?_eq_some_iff,
    field_eq_ok_iff fun _ _ => profilingOf?_eq_some_iff]
  constructor
  · rintro ⟨granularity, hgranularity, cubeDim, hcube, profiling, hprofiling, hconfig⟩
    cases hconfig
    exact ⟨hgranularity, hcube, hprofiling⟩
  · rintro ⟨hgranularity, hcube, hprofiling⟩
    exact ⟨_, hgranularity, _, hcube, _, hprofiling, rfl⟩

/-! ## Where values are read -/

/-- A value is read at the path. -/
inductive Reads : List Step → Prop
  | granularity : Reads [.key "granularity"]
  | cubeDim : Reads [.key "cube_dim"]
  | profiling : Reads [.key "profiling"]
  | enabled : Reads [.key "profiling", .key "enabled"]
  | first : Reads [.key "profiling", .index 0]

/-- A shape at a path matters: a value is read there, and it is not just the profiling table, which might as
well be absent. -/
def Matters (path : List Step) (s : Shape) : Prop :=
  Reads path ∧ ¬ (path = [.key "profiling"] ∧ s = .table)

/-- A table says the same as another one wherever values are read. -/
def SaysSame (first second : List Step → Shape → Prop) : Prop :=
  ∀ path s, Matters path s → (first path s ↔ second path s)

/-! ## The values that are read -/

theorem isCount_iff {value : Value} {n : Index} : IsCount value n ↔ value.shape = .integer n.toNat := by
  cases value with
  | array growing _ => cases growing <;> simp [IsCount, Value.shape]
  | _ => simp [IsCount, Value.shape]

theorem isSwitch_iff {value : Value} {flag : Bool} : IsSwitch value flag ↔ value.shape = .boolean flag := by
  cases value with
  | array growing _ => cases growing <;> simp [IsSwitch, Value.shape]
  | _ => simp [IsSwitch, Value.shape]

theorem countOf?_congr {first second : Value} (h : first.shape = second.shape) :
    countOf? first = countOf? second :=
  Option.ext fun n => by rw [countOf?_eq_some_iff, countOf?_eq_some_iff, isCount_iff, isCount_iff, h]

theorem switchOf?_congr {first second : Value} (h : first.shape = second.shape) :
    switchOf? first = switchOf? second :=
  Option.ext fun flag => by
    rw [switchOf?_eq_some_iff, switchOf?_eq_some_iff, isSwitch_iff, isSwitch_iff, h]

/-- What is read by its shape alone is the same for values that are said to be the same. -/
theorem orDefault_congr {β : Type} {otherwise : β} {read : Value → Option β}
    (hread : ∀ first second, Value.shape first = second.shape → read first = read second)
    {first second : Option Value} (hfirst : ∀ value ∈ first, value.WellFormed)
    (hsecond : ∀ value ∈ second, value.WellFormed)
    (hfacts : ∀ s, (∃ value ∈ first, value.Says [] s) ↔ ∃ value ∈ second, value.Says [] s) :
    orDefault otherwise read first = orDefault otherwise read second := by
  have hshape := Toml.map_shape_eq_of_facts hfirst hsecond hfacts
  cases first with
  | none => rw [Option.map_eq_none_iff.1 hshape.symm]
  | some value =>
      obtain ⟨value', rfl, hvalue⟩ := Option.map_eq_some_iff.1 hshape.symm
      exact hread value value' hvalue.symm

/-- Whether a value of the shape may stand for the profiling table. -/
def holdsSwitch : Shape → Bool
  | .table | .array | .datetime _ => true
  | _ => false

/-- The value of the switch in what stands for the profiling table. -/
def switchValue : Option Value → Option Value
  | some (.table _ entries) => Table.get? entries "enabled"
  | some (.array _ items) => items.head?
  | _ => none

/-- The profiling switch is read if there is no profiling table or a value that may stand for it. -/
theorem profiling_eq {found : Option Value} (hfound : ∀ value ∈ found, value.WellFormed) :
    orDefault standard.profiling profilingOf? found =
      if found.all (holdsSwitch ·.shape) then
        orDefault standard.profiling switchOf? (switchValue found)
      else none := by
  cases found with
  | none => rfl
  | some value =>
      cases hfound value rfl with
      | tables hne htables _ =>
          obtain ⟨item, others, rfl⟩ := List.exists_cons_of_ne_nil hne
          have hitem : item.shape = .table := htables item (List.mem_cons_self ..)
          have hread : switchOf? item = none := by
            cases item with
            | boolean flag => cases hitem
            | _ => rfl
          simp [orDefault, profilingOf?, hread, holdsSwitch, Value.shape]
      | _ => rfl

theorem wellFormed_switchValue {found : Option Value} (hfound : ∀ value ∈ found, value.WellFormed) :
    ∀ value ∈ switchValue found, value.WellFormed := by
  intro value hvalue
  unfold switchValue at hvalue
  split at hvalue
  · exact (Value.wellFormed_table_iff.1 (hfound _ rfl)).values _ (Table.mem_of_get? hvalue)
  · next growing items =>
      have hmem : value ∈ items := List.mem_of_head? hvalue
      cases hfound _ rfl with
      | array hitems => exact hitems value hmem
      | tables _ _ hitems => exact hitems value hmem
  · cases hvalue

theorem not_says_index (table : Table) (i : Nat) (path : List Step) (s : Shape) :
    ¬ table.Says (.index i :: path) s := id

/-- What the switch says is what is said where it is read. -/
theorem says_switchValue_iff {found : Option Value} (hfound : ∀ value ∈ found, value.WellFormed)
    (hholds : found.all (holdsSwitch ·.shape)) (s : Shape) :
    (∃ value ∈ switchValue found, value.Says [] s) ↔
      ∃ value ∈ found, value.Says [.key "enabled"] s ∨ value.Says [.index 0] s := by
  cases found with
  | none => simp [switchValue]
  | some value =>
      simp only [Option.mem_def, Option.some.injEq, exists_eq_left']
      cases hfound value rfl with
      | table hkeys hentries =>
          simp [switchValue, Value.says_table_iff, Table.says_key_iff hkeys, not_says_index]
      | array hitems =>
          rename_i items
          simp only [switchValue, List.head?_eq_getElem?]
          constructor
          · rintro ⟨item, hget, h⟩
            exact .inr (.item hget h)
          · rintro (h | h)
            · cases h
            · cases h with
              | item hget h => exact ⟨_, hget, h⟩
      | tables => cases hholds
      | _ =>
          constructor
          · rintro ⟨_, hmem, _⟩
            cases hmem
          · rintro (h | h) <;> cases h

section Tables

variable {before after : Table} (hbefore : before.WellFormed) (hafter : after.WellFormed)

theorem wellFormed_of_get? {table : Table} (htable : table.WellFormed) {key : String} :
    ∀ value ∈ table.get? key, value.WellFormed :=
  fun _ hget => htable.values _ (Table.mem_of_get? hget)

include hbefore hafter

/-- A field is the same in tables that say the same of it. -/
theorem count_congr {key : String} (otherwise : Index)
    (hfacts : ∀ s, before.Says [.key key] s ↔ after.Says [.key key] s) :
    orDefault otherwise countOf? (before.get? key) = orDefault otherwise countOf? (after.get? key) := by
  refine orDefault_congr (fun _ _ => countOf?_congr) (wellFormed_of_get? hbefore)
    (wellFormed_of_get? hafter) fun s => ?_
  have h := hfacts s
  rwa [Table.says_key_iff hbefore.keys, Table.says_key_iff hafter.keys] at h

/-- Whether there is a value that cannot stand for the profiling table does not depend on the shape of tables. -/
theorem holdsSwitch_congr (hfacts : SaysSame before.Says after.Says) :
    (before.get? "profiling").all (holdsSwitch ·.shape) =
      (after.get? "profiling").all (holdsSwitch ·.shape) := by
  have hall {table : Table} (htable : table.WellFormed) :
      (table.get? "profiling").all (holdsSwitch ·.shape) = false ↔
        ∃ s, holdsSwitch s = false ∧ table.Says [.key "profiling"] s := by
    simp only [Option.all_eq_false, Table.says_key_iff htable.keys]
    constructor
    · rintro ⟨value, hget, hholds⟩
      exact ⟨_, by simpa using hholds, value, hget, .here value⟩
    · rintro ⟨s, hholds, value, hget, h⟩
      refine ⟨value, hget, ?_⟩
      obtain rfl | ⟨htables, -⟩ := ((wellFormed_of_get? htable) value hget).says_self_iff s |>.1 h
      · simpa using hholds
      · simp [htables, holdsSwitch]
  refine Bool.eq_iff_iff.2 ?_
  rw [← Bool.not_eq_false, ← Bool.not_eq_false, hall hbefore, hall hafter]
  refine not_congr ?_
  refine exists_congr fun s => and_congr_right fun hholds => hfacts _ s ⟨.profiling, ?_⟩
  rintro ⟨-, rfl⟩
  cases hholds

/-- The profiling switch is the same in tables that say the same of it. -/
theorem profiling_congr (hfacts : SaysSame before.Says after.Says) :
    orDefault standard.profiling profilingOf? (before.get? "profiling") =
      orDefault standard.profiling profilingOf? (after.get? "profiling") := by
  rw [profiling_eq (wellFormed_of_get? hbefore), profiling_eq (wellFormed_of_get? hafter),
    ← holdsSwitch_congr hbefore hafter hfacts]
  split
  · next hholds =>
      have hholds' := holdsSwitch_congr hbefore hafter hfacts ▸ hholds
      have hswitch {table : Table} (htable : table.WellFormed)
          (hholds : (table.get? "profiling").all (holdsSwitch ·.shape)) (s : Shape) :
          (∃ value ∈ switchValue (table.get? "profiling"), value.Says [] s) ↔
            table.Says [.key "profiling", .key "enabled"] s ∨ table.Says [.key "profiling", .index 0] s := by
        rw [says_switchValue_iff (wellFormed_of_get? htable) hholds, Table.says_key_iff htable.keys,
          Table.says_key_iff htable.keys]
        simp only [Option.mem_def, and_or_left, exists_or]
      refine orDefault_congr (fun _ _ => switchOf?_congr)
        (wellFormed_switchValue (wellFormed_of_get? hbefore))
        (wellFormed_switchValue (wellFormed_of_get? hafter)) fun s => ?_
      rw [hswitch hbefore hholds, hswitch hafter hholds']
      exact or_congr (hfacts _ s ⟨.enabled, by simp⟩) (hfacts _ s ⟨.first, by simp⟩)
  · rfl

/-- Tables that say the same wherever values are read have the same configuration, or the same defect. -/
theorem ofTable_congr (hfacts : SaysSame before.Says after.Says) : ofTable before = ofTable after := by
  have hgranularity := count_congr hbefore hafter standard.granularity
    fun s => hfacts [.key "granularity"] s ⟨.granularity, by simp⟩
  have hcube := count_congr hbefore hafter standard.cubeDim
    fun s => hfacts [.key "cube_dim"] s ⟨.cubeDim, by simp⟩
  simp only [ofTable, field, hgranularity, hcube, profiling_congr hbefore hafter hfacts]

end Tables

end PrefixScan.Config
