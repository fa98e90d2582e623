import MacroAsm.Log.Level
import MacroAsm.Lowering.Pipeline
import MacroAsm.Toml.Document

/-!
# Settings and their document

Settings decide which passes run, and how much is logged.

A settings file is a TOML document with a section `pipeline`, whose `passes` lists pass names, and a
section `log`, whose `level` names a level.  What is missing takes its default, and what stands
under an unknown key is ignored, as long as its numbers fit machine numbers.

A section is a table, or an array whose first item stands for the section's one field; the items
after it are not looked at.  A name is a string, or a table whose only key is the name and whose
value is an empty table or array.

## Main definitions

* `Settings` — the passes and the level of the log.
* `Settings.ofDocument?` — the settings that a document holds.
* `Settings.document` — the text of settings.
-/

namespace MacroAsm

/-- The passes that run, and the level of the log. -/
structure Settings where
  passes : Pipeline
  level : Log.Level
deriving DecidableEq, Repr

/-- Every pass once, and the log at `info`. -/
def Settings.default : Settings := ⟨Pipeline.default, .info⟩

/-- Whether what stands under other keys than the known ones can be ignored. -/
def Toml.Entries.othersAreHeld (known : List String) (entries : Toml.Entries) : Bool :=
  Toml.Value.areHeldEntries (entries.filter fun entry => !known.contains entry.1)

namespace Toml.Value

/-- The name that a value spells. -/
def name? : Value → Option String
  | string text => some text
  | table _ [(name, content)] => if content.isEmptyContainer then some name else none
  | _ => none

/-- The field of a section, if it has one; there is no result when the value is no section. -/
def field? (name : String) : Value → Option (Option Value)
  | table _ entries =>
    if Entries.othersAreHeld [name] entries then some (entries.lookup name) else none
  | value => value.items?.map List.head?

end Toml.Value

namespace Settings

/-- The pass that a value names. -/
def pass? (value : Toml.Value) : Option Pass := do
  Pass.ofName? (← value.name?)

/-- The passes that a value lists. -/
def passes? (value : Toml.Value) : Option Pipeline := do
  (← value.items?).mapM pass?

/-- The level that a value names. -/
def level? (value : Toml.Value) : Option Log.Level := do
  Log.Level.ofName? (← value.name?)

/-- The field of a section of a document, or the default when section or field are missing. -/
def fieldOr {α : Type} (default : α) (read : Toml.Value → Option α) (sectionName name : String)
    (entries : Toml.Entries) : Option α :=
  match entries.lookup sectionName with
  | none => some default
  | some value => do
    match ← value.field? name with
    | none => some default
    | some value => read value

/-- The settings that entries hold. -/
def ofEntries? (entries : Toml.Entries) : Option Settings := do
  guard (entries.othersAreHeld ["pipeline", "log"])
  let passes ← fieldOr default.passes passes? "pipeline" "passes" entries
  let level ← fieldOr default.level level? "log" "level" entries
  return ⟨passes, level⟩

/-- The settings that a document holds. -/
def ofDocument? (text : String) : Option Settings := do
  ofEntries? (← Toml.parse? text)

/-- The text of a list of passes: up to one pass stands on one line, more passes on a line each. -/
def passList : Pipeline → String
  | [] => "[]"
  | [p] => "[\"" ++ p.name ++ "\"]"
  | passes => "[\n" ++ String.join (passes.map fun p => "    \"" ++ p.name ++ "\",\n") ++ "]"

/-- The text of settings. -/
def document (s : Settings) : String :=
  "[pipeline]\npasses = " ++ passList s.passes ++ "\n\n[log]\nlevel = \"" ++ s.level.name ++ "\"\n"

end Settings

end MacroAsm
