import MacroAsm.Files.Store
import MacroAsm.Settings.Document

/-!
# Where settings are kept

Settings come from the first of these that is there: a file that is asked for, the project's file,
the user's file, the defaults.  A file replaces all settings; files are not merged.

## Main definitions

* `Tool.projectFile`, `Tool.userFile` — the files that are looked for.
* `Environment` — the variables that say where the user's files are.
* `SettingsError` — why settings cannot be loaded or saved.
* `Settings.load`, `Settings.resolve` — settings from a store.
* `Settings.save` — settings to a store.
-/

namespace MacroAsm

open Files (Store)

namespace Tool

/-- The file that holds the settings of a project. -/
def projectFile : String := "macrolower.toml"

/-- The directory below the user's configuration directory. -/
def userDirectory : String := "macrolower"

/-- The file in that directory that holds the user's settings. -/
def userFile : String := "config.toml"

end Tool

/-- The variables that say where the user's files are, as far as they are set. -/
structure Environment where
  xdgConfigHome : Option String
  home : Option String
  appData : Option String
deriving DecidableEq, Repr

namespace Environment

/-- The directory of the user's settings.  A variable that is set counts even when it is empty. -/
def settingsDirectory? (e : Environment) : Option Path :=
  match e.xdgConfigHome, e.home, e.appData with
  | some directory, _, _ => some (Path.join ⟨directory⟩ ⟨Tool.userDirectory⟩)
  | none, some home, _ => some ((Path.join ⟨home⟩ ⟨".config"⟩).join ⟨Tool.userDirectory⟩)
  | none, none, some directory => some (Path.join ⟨directory⟩ ⟨Tool.userDirectory⟩)
  | none, none, none => none

/-- The file of the user's settings. -/
def settingsFile? (e : Environment) : Option Path :=
  e.settingsDirectory?.map (·.join ⟨Tool.userFile⟩)

end Environment

/-- Why settings cannot be loaded or saved. -/
inductive SettingsError where
  | file (fault : Files.Fault)
  | malformed
  | noDirectory
deriving DecidableEq, Repr

/-- The wording of an error. -/
def SettingsError.message : SettingsError → String
  | file fault => "IO error: " ++ fault.message
  | malformed => "Config parse error"
  | noDirectory => "Cannot determine config directory"

namespace Settings

/-- The settings in a file. -/
def load (store : Store) (path : Path) : Except SettingsError Settings :=
  match store.readText path with
  | .error fault => .error (.file fault)
  | .ok text =>
    match ofDocument? text with
    | none => .error .malformed
    | some settings => .ok settings

/-- The user's settings, or the defaults when the user has no file. -/
def loadUser (store : Store) (env : Environment) : Except SettingsError Settings :=
  match env.settingsFile? with
  | none => .ok default
  | some path => if store.contains path then load store path else .ok default

/-- The settings of a project, if it has a file. -/
def loadProject (store : Store) (directory : Path) : Except SettingsError (Option Settings) :=
  let path := directory.join ⟨Tool.projectFile⟩
  if store.contains path then (load store path).map some else .ok none

/-- The settings that apply: those asked for, else the project's, else the user's. -/
def resolve (store : Store) (env : Environment) (asked : Option Path) (project : Path) :
    Except SettingsError Settings := do
  match asked with
  | some path => load store path
  | none =>
    match ← loadProject store project with
    | some settings => return settings
    | none => loadUser store env

/-- The store with the directory of a file made, unless it is there. -/
def makeDirectoryOf (store : Store) (path : Path) : Except Files.Fault Store :=
  match path.parent? with
  | none => .ok store
  | some directory =>
    if directory.text.isEmpty || store.contains directory then .ok store
    else store.createDirectories directory

/-- The store with settings saved to a file, whose missing directories are made. -/
def save (store : Store) (path : Path) (settings : Settings) : Except SettingsError Store :=
  match makeDirectoryOf store path with
  | .error fault => .error (.file fault)
  | .ok store =>
    match store.writeText path settings.document with
    | .error fault => .error (.file fault)
    | .ok store => .ok store

/-- The store with settings saved to the user's file. -/
def saveUser (store : Store) (env : Environment) (settings : Settings) :
    Except SettingsError Store :=
  match env.settingsFile? with
  | none => .error .noDirectory
  | some path => save store path settings

end Settings

end MacroAsm
