import MacroAsm.Proofs.Files.Locations
import MacroAsm.Proofs.Toml.Reading
import MacroAsm.Settings.Location

/-!
# Saved settings

Settings that were saved are loaded as they were.  The text of settings is read statement by
statement, which gives the entries of two sections, and from these entries no field takes its
default: a list without passes stays a list without passes.

## Main definitions

* `Settings.documentLines` — the lines of a settings file.
* `Settings.entries` — the entries of a settings file.

## Main statements

* `Settings.parse?_document` — what the text of settings is read as.
* `Settings.ofEntries?_entries` — the settings that these entries hold.
* `Settings.load_of_save` — saving and loading.
-/

namespace MacroAsm

open Files (Store)
open Toml (Draft IsKeyWord arrayText isVerbatim itemLines quote readStatement_header
  readStatement_pair readStatements readStatements_step skipBlank)

theorem Pass.all_isVerbatim_name (p : Pass) : p.name.toList.all isVerbatim = true := by
  cases p <;> decide

theorem Log.Level.all_isVerbatim_name (l : Log.Level) : l.name.toList.all isVerbatim = true := by
  cases l <;> decide

namespace Settings

/-! ## The lines of a settings file -/

/-- A name in double quotes. -/
def quoted (name : String) : String :=
  "\"" ++ name ++ "\""

/-- The lines that list the passes: up to one pass stands on one line, more passes on a line each. -/
def passLines : Pipeline → List String
  | [] => ["passes = []"]
  | [p] => ["passes = [" ++ quoted p.name ++ "]"]
  | passes => ["passes = ["] ++ passes.map (fun p => "    " ++ quoted p.name ++ ",") ++ ["]"]

/-- The lines of a settings file: the passes, then the level. -/
def documentLines (s : Settings) : List String :=
  ["[pipeline]"] ++ passLines s.passes ++ ["", "[log]", "level = " ++ quoted s.level.name]

theorem join_passLines (ps : Pipeline) :
    String.join ((passLines ps).map (· ++ "\n")) = "passes = " ++ passList ps ++ "\n" := by
  apply String.toList_inj.mp
  match ps with
  | [] => simp [passLines, passList]
  | [p] => simp [passLines, passList, quoted]
  | first :: second :: rest => simp [passLines, passList, quoted, List.flatMap_map]

/-- The text of settings is made of its lines. -/
theorem document_eq_join (s : Settings) :
    s.document = String.join (s.documentLines.map (· ++ "\n")) := by
  rw [documentLines, List.map_append, List.map_append, String.join_append, String.join_append,
    join_passLines]
  unfold document
  apply String.toList_inj.mp
  simp [quoted]

/-! ## Reading the text of settings -/

/-- The entries of a settings file. -/
def entries (s : Settings) : Toml.Entries :=
  [("pipeline", .table .headed [("passes", .array (s.passes.map fun p => .string p.name))]),
    ("log", .table .headed [("level", .string s.level.name)])]

theorem toList_passList (ps : Pipeline) :
    (passList ps).toList = arrayText (ps.map fun p => p.name.toList) := by
  match ps with
  | [] => rfl
  | [p] => simp [passList, arrayText, quote]
  | first :: second :: rest =>
      simp [passList, arrayText, itemLines, quote, List.flatMap_map]

theorem all_isVerbatim_of_mem_names (ps : Pipeline) :
    ∀ text ∈ ps.map fun p => p.name.toList, text.all isVerbatim = true := by
  intro text htext
  obtain ⟨p, _, rfl⟩ := List.mem_map.mp htext
  exact p.all_isVerbatim_name

/-- The statements of a settings file, in the order in which they are read. -/
theorem toList_document (s : Settings) :
    s.document.toList =
      '[' :: ("pipeline".toList ++ ']' :: '\n' ::
        ("passes".toList ++ ' ' :: '=' :: ' ' ::
          (arrayText (s.passes.map fun p => p.name.toList) ++ '\n' :: '\n' ::
            '[' :: ("log".toList ++ ']' :: '\n' ::
              ("level".toList ++ ' ' :: '=' :: ' ' ::
                (quote s.level.name.toList ++ ['\n'])))))) := by
  unfold document
  simp [toList_passList, quote]

/-- The four statements of a settings file open two tables and fill them. -/
theorem readStatements_document (s : Settings) (bound : Nat) :
    readStatements (bound + 5) .empty s.document.toList = some ⟨s.entries, ["log"]⟩ := by
  have hpipeline : IsKeyWord "pipeline".toList := by decide
  have hpasses : IsKeyWord "passes".toList := by decide
  have hlog : IsKeyWord "log".toList := by decide
  have hlevel : IsKeyWord "level".toList := by decide
  have hlist := Toml.readValue_arrayText (all_isVerbatim_of_mem_names s.passes)
  have hname := Toml.readValue_quote s.level.all_isVerbatim_name
  have hspaces := Toml.skipSpaces_arrayText (s.passes.map fun p => p.name.toList)
  rw [toList_document]
  rw [readStatements_step rfl (readStatement_header _ hpipeline rfl _)]
  rw [readStatements_step rfl (readStatement_pair hpasses rfl rfl (hspaces _) (hlist _))]
  rw [readStatements_step rfl (readStatement_header _ hlog rfl _)]
  rw [readStatements_step rfl (readStatement_pair hlevel rfl rfl rfl (hname _))]
  simp [readStatements, skipBlank, Draft.empty, entries]

theorem parse?_document (s : Settings) : Toml.parse? s.document = some s.entries := by
  obtain ⟨bound, hbound⟩ : ∃ n, s.document.toList.length + 1 = n + 5 := by
    refine Nat.exists_eq_add_of_le' ?_
    rw [toList_document]
    simp
  refine Toml.parse?_eq_some ?_ (hbound ▸ readStatements_document s bound)
  rw [toList_document]
  simp

/-! ## The settings of the entries -/

theorem passes?_names (ps : Pipeline) :
    passes? (.array (ps.map fun p => .string p.name)) = some ps := by
  have hmap : (ps.map fun p => Toml.Value.string p.name).mapM pass? = some ps := by
    induction ps with
    | nil => rfl
    | cons p ps ih => simp [pass?, Toml.Value.name?, ih]
  simp [passes?, Toml.Value.items?, hmap]

theorem level?_name (l : Log.Level) : level? (.string l.name) = some l := by
  simp [level?, Toml.Value.name?]

/-- A section with its one field does not leave the field to the default. -/
theorem fieldOr_of_lookup {α : Type} {default : α} {read : Toml.Value → Option α}
    {sectionName name : String} {kind : Toml.TableKind} {value : Toml.Value}
    {entries : Toml.Entries} (h : entries.lookup sectionName = some (.table kind [(name, value)])) :
    fieldOr default read sectionName name entries = read value := by
  simp [fieldOr, h, Toml.Value.field?, Toml.Entries.othersAreHeld, Toml.Value.areHeldEntries]

theorem ofEntries?_entries (s : Settings) : ofEntries? s.entries = some s := by
  have hfields : ofEntries? s.entries = (do
      let passes ← fieldOr default.passes passes? "pipeline" "passes" s.entries
      let level ← fieldOr default.level level? "log" "level" s.entries
      return ⟨passes, level⟩) := rfl
  have hpasses : fieldOr default.passes passes? "pipeline" "passes" s.entries = some s.passes :=
    (fieldOr_of_lookup rfl).trans (passes?_names s.passes)
  have hlevel : fieldOr default.level level? "log" "level" s.entries = some s.level :=
    (fieldOr_of_lookup rfl).trans (level?_name s.level)
  rw [hfields, hpasses, hlevel]
  rfl

theorem ofDocument?_document (s : Settings) : ofDocument? s.document = some s := by
  rw [ofDocument?, parse?_document]
  exact ofEntries?_entries s

/-! ## Saving and loading -/

theorem writeText_of_save {store store' : Store} {path : Path} {s : Settings}
    (h : save store path s = .ok store') :
    ∃ ready, Store.writeText ready path s.document = .ok store' := by
  unfold save at h
  split at h
  · contradiction
  · rename_i ready _
    split at h
    · contradiction
    · rename_i written hwrite
      obtain rfl := Except.ok.inj h
      exact ⟨ready, hwrite⟩

/-- **Saving settings and loading them is the identity.**  The text of settings is made of the lines
of a settings file, with up to one pass on one line and more passes on a line each; it is read as
these settings, whatever the passes and the level are; and when settings are saved, the file has this
text and is loaded as these settings. -/
theorem load_of_save (settings : Settings) :
    settings.document = String.join (settings.documentLines.map (· ++ "\n")) ∧
    ofDocument? settings.document = some settings ∧
    ∀ (store store' : Store) (path : Path), save store path settings = .ok store' →
      store'.readText path = .ok settings.document ∧ load store' path = .ok settings := by
  refine ⟨document_eq_join settings, ofDocument?_document settings, ?_⟩
  intro store store' path h
  obtain ⟨ready, hwrite⟩ := writeText_of_save h
  have hread := Store.readText_of_writeText hwrite
  refine ⟨hread, ?_⟩
  simp only [load, hread, ofDocument?_document]

/-- A list of passes with a repetition is saved to a directory that has to be made. -/
theorem load_of_save_nested :
    let settings : Settings := ⟨[.bitTest, .not, .bitTest], .warn⟩
    ∃ store', save (.ofDirectory ["w"]) ⟨"nested/config.toml"⟩ settings = .ok store' ∧
      store'.readText ⟨"nested/config.toml"⟩ =
        .ok ("[pipeline]\npasses = [\n    \"bit-test\",\n    \"not\",\n    \"bit-test\",\n]\n\n" ++
          "[log]\nlevel = \"warn\"\n") ∧
      load store' ⟨"nested/config.toml"⟩ = .ok settings := by
  intro settings
  have hsave : save (.ofDirectory ["w"]) ⟨"nested/config.toml"⟩ settings = .ok _ := rfl
  obtain ⟨-, -, hload⟩ := load_of_save settings
  exact ⟨_, hsave, hload _ _ _ hsave⟩

end Settings

end MacroAsm
