import MacroAsm.Command.Run

/-!
# The command line

The tool as a program.  What the arguments name on disk is taken into a store, the run itself
happens on the store, and what it changed is written back.
-/

namespace MacroAsm

open Files (Store)

namespace Invocation

/-- The paths that a run may look at, besides those of settings. -/
def paths (i : Invocation) : List Path :=
  match i.command with
  | .lower [file] output _ => file :: output.toList
  | .lower files output _ => output.toList ++ files ++ files.map (destination output)
  | .check files _ => files
  | _ => []

/-- All paths that a run in a directory may look at. -/
def allPaths (i : Invocation) (env : Environment) (directory : Path) : List Path :=
  [directory, directory.join ⟨Tool.projectFile⟩] ++ env.settingsFile?.toList ++
    i.settings.toList ++ i.paths

end Invocation

/-- Whether a directory is at a path on disk: only a directory has an entry `.` to open. -/
def isDirectoryOnDisk (path : Path) : IO Bool :=
  try
    IO.FS.withFile (path.text ++ "/.") .read fun _ => return true
  catch _ => return false

/-- Takes what is at one path on disk into a store that has its parent. -/
def takeEntry (store : Store) (path : Path) : IO Store := do
  if ← isDirectoryOnDisk path then
    return (store.createDirectory path).toOption.getD store
  try
    let content ← IO.FS.readBinFile path.text
    return (store.write path content).toOption.getD store
  catch _ => return store

/-- Takes what is at a path on disk, and its parents, into a store. -/
def takePath (store : Store) (path : Path) : IO Store :=
  path.ancestors.reverse.foldlM takeEntry store

/-- The path of a location. -/
def pathText (l : Files.Location) : String :=
  "/" ++ "/".intercalate l

/-- Writes to disk what a run changed. -/
def writeBack (before after : Store) : IO Unit := do
  for l in (Store.newDirectories before after).reverse do
    IO.FS.createDirAll (pathText l)
  for (l, content) in Store.changedFiles before after [] do
    IO.FS.writeBinFile (pathText l) content

/-- Runs the tool on the disk. -/
def runOnDisk (words : List String) : IO UInt32 := do
  let directory : Path := ⟨toString (← IO.currentDir)⟩
  let env : Environment :=
    ⟨← IO.getEnv "XDG_CONFIG_HOME", ← IO.getEnv "HOME", ← IO.getEnv "APPDATA"⟩
  let paths := match Invocation.ofArguments words with
    | .ok invocation => invocation.allPaths env directory
    | .error _ => []
  let store ← paths.foldlM takePath (.ofDirectory directory.names)
  match execute words env directory store with
  | .error _ =>
    IO.eprint helpText
    return 2
  | .ok outcome =>
    writeBack store outcome.store
    IO.print outcome.output
    IO.eprint outcome.errors
    return UInt32.ofNat outcome.code

end MacroAsm

/-- The entry point of the tool. -/
def main (words : List String) : IO UInt32 :=
  MacroAsm.runOnDisk words
