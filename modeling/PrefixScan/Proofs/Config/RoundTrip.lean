import PrefixScan.Proofs.Config.Meaning
import PrefixScan.Proofs.Toml.Written

/-!
# Reading a written configuration

The document of a configuration holds three keys and a header on their lines.  Reading them back gives the
table with the three fields, and that table gives the configuration.

## Main results

* `Config.statements_toDocument` — the statements of a written configuration.
* `Config.parse_toDocument` — the table of a written configuration.
* `Config.load_toDocument` — a written configuration is read back, and no two are written alike.
-/

namespace PrefixScan.Config

variable (config : Config)

/-- The words of a flag are read as the flag. -/
theorem word?_toString (flag : Bool) : Toml.word? (toString flag).toList = some (.boolean flag) := by
  cases flag <;> rfl

/-- The lines of a written configuration. -/
theorem toList_toDocument : (toDocument config).toList =
    "granularity".toList ++ ' ' :: '=' :: ' ' :: (Nat.toDigits 10 config.granularity.toNat ++ '\n' ::
      ("cube_dim".toList ++ ' ' :: '=' :: ' ' :: (Nat.toDigits 10 config.cubeDim.toNat ++ '\n' ::
        ('\n' :: '[' :: ("profiling".toList ++ ']' :: '\n' ::
          ("enabled".toList ++ ' ' :: '=' :: ' ' :: ((toString config.profiling).toList ++ '\n' :: []))))))) := by
  have hgranularity : "granularity = ".toList = "granularity".toList ++ [' ', '=', ' '] := rfl
  have hcube : "cube_dim = ".toList = "cube_dim".toList ++ [' ', '=', ' '] := rfl
  have htable : "\n[profiling]\nenabled = ".toList = '\n' :: '[' :: ("profiling".toList ++ ']' :: '\n' ::
      ("enabled".toList ++ [' ', '=', ' '])) := rfl
  have hfeed : "\n".toList = ['\n'] := rfl
  unfold toDocument
  simp only [String.toList_append, Text.toList_word, hgranularity, hcube, htable, hfeed,
    List.append_assoc, List.cons_append, List.nil_append]

/-- The statements of a written configuration. -/
theorem statements_toDocument : Toml.statements (toDocument config) = some [
    .pair [] [] "granularity" (.integer config.granularity.toNat),
    .pair [] [] "cube_dim" (.integer config.cubeDim.toNat),
    .table [] "profiling",
    .pair ["profiling"] [] "enabled" (.boolean config.profiling)] := by
  have hlong : 5 ≤ (toDocument config).toList.length := by
    rw [toList_toDocument]
    simp
  obtain ⟨fuel, hfuel⟩ := Nat.exists_eq_add_of_le' hlong
  have hmark : (toDocument config).toList.head? ≠ some '\ufeff' := by
    rw [toList_toDocument]
    simp
  have hcount (n : Index) : n.toNat < 2 ^ 63 := Nat.lt_trans n.isLt (by decide)
  have hflag (flag : Bool) : ∀ c ∈ (toString flag).toList, Toml.isWord c :=
    List.all_eq_true.1 (by cases flag <;> rfl)
  have hne (flag : Bool) : (toString flag).toList ≠ [] := by cases flag <;> decide
  have hgranularity : ∀ c ∈ "granularity".toList, Toml.isBare c := List.all_eq_true.1 rfl
  have hcube : ∀ c ∈ "cube_dim".toList, Toml.isBare c := List.all_eq_true.1 rfl
  have hprofiling : ∀ c ∈ "profiling".toList, Toml.isBare c := List.all_eq_true.1 rfl
  have henabled : ∀ c ∈ "enabled".toList, Toml.isBare c := List.all_eq_true.1 rfl
  rw [Toml.statements, if_neg hmark, hfuel, toList_toDocument]
  rw [Toml.statementsFrom_some (by simp) (Toml.statement_pair (by decide) hgranularity Nat.toDigits_ne_nil
      (fun _ => Toml.isWord_of_mem_toDigits) (Toml.word?_toDigits (hcount config.granularity))),
    Toml.statementsFrom_some (by simp) (Toml.statement_pair (by decide) hcube Nat.toDigits_ne_nil
      (fun _ => Toml.isWord_of_mem_toDigits) (Toml.word?_toDigits (hcount config.cubeDim))),
    Toml.statementsFrom_none (by simp) Toml.statement_empty,
    Toml.statementsFrom_some (by simp) (Toml.statement_table (by decide) hprofiling),
    Toml.statementsFrom_some (by simp) (Toml.statement_pair (by decide) henabled (hne config.profiling)
      (hflag config.profiling) (word?_toString config.profiling)), Toml.statementsFrom]
  simp only [Option.map_some, String.ofList_toList]
  rfl

/-- The table of a written configuration. -/
theorem parse_toDocument : Toml.parse (toDocument config) = some [
    ("granularity", .integer config.granularity.toNat),
    ("cube_dim", .integer config.cubeDim.toNat),
    ("profiling", .table .header [("enabled", .boolean config.profiling)])] := by
  rw [Toml.parse_eq, statements_toDocument]
  rfl

/-- A written configuration is read back, so no two configurations are written alike. -/
theorem load_toDocument :
    (∀ config, load (toDocument config) = .ok config) ∧ Function.Injective toDocument := by
  have hload (config : Config) : load (toDocument config) = .ok config := by
    have hgiven : ofDocument (toDocument config) = .ok config := by
      rw [ofDocument, parse_toDocument]
      exact ofTable_eq_ok_iff.2 ⟨.present rfl, .present rfl, .present (.table (.present rfl))⟩
    rw [load, hgiven]
    rfl
  refine ⟨hload, fun first second h => ?_⟩
  have hread : load (toDocument first) = load (toDocument second) := by rw [h]
  rw [hload, hload] at hread
  exact Except.ok.inj hread

end PrefixScan.Config
