import MacroAsm.Command.Arguments
import MacroAsm.Command.Failure
import MacroAsm.Log.Trace

/-!
# Running a command

A command works on a file store and gives the store it leaves behind, what it prints, and whether it
failed.  When several files are lowered, one that fails does not keep the others from being written.

## Main definitions

* `destination` — where the lowered text of one of several files goes.
* `lowerTo`, `lowerAll` — lowering one of several files, and all of them.
* `makeTarget` — the directory they go to.
* `checkFile` — whether a file lowers with nothing left.
* `Outcome` — what a run shows and leaves behind.
* `Invocation.run`, `execute` — a whole run.
-/

namespace MacroAsm

open Files (Store)

/-! ## Lowering several files -/

/-- Where the lowered text of a file goes: a file with `.lowered` added to the name, in a directory
that was asked for or beside the file. -/
def destination (directory : Option Path) (file : Path) : Path :=
  let name := file.fileName?.getD "" ++ ".lowered"
  match directory with
  | some directory => directory.join ⟨name⟩
  | none => file.withFileName name

/-- Lowers a file to its destination. -/
def lowerTo (passes : Pipeline) (directory : Option Path) (store : Store) (file : Path) :
    Except Failure Store :=
  match lowerFile passes store file with
  | .error e => .error (.lower file e)
  | .ok text =>
    let target := destination directory file
    match store.writeText target text with
    | .error fault => .error (.write target fault)
    | .ok store => .ok store

/-- Lowers files one after the other, to the store they leave and the failures on the way. -/
def lowerAll (passes : Pipeline) (directory : Option Path) :
    Store → List Path → Store × List Failure
  | store, [] => (store, [])
  | store, file :: files =>
    match lowerTo passes directory store file with
    | .ok store => lowerAll passes directory store files
    | .error failure =>
      let (store, failures) := lowerAll passes directory store files
      (store, failure :: failures)

/-- The failure of a command of whose `total` files some failed. -/
def overallFailure (failures : List Failure) (total : Nat) : Option Failure :=
  if failures.isEmpty then none else some (.filesFailed failures.length total)

/-- The store with the directory that lowered files go to, if they have one of their own. -/
def makeTarget (directory : Option Path) (store : Store) : Except Failure Store :=
  match directory with
  | none => .ok store
  | some path =>
    match store.createDirectories path with
    | .error fault => .error (.create path fault)
    | .ok store => .ok store

/-! ## Checking files -/

/-- Checks that a file lowers and that no instruction is left that a pass would replace. -/
def checkFile (passes : Pipeline) (store : Store) (file : Path) : Except Failure Unit :=
  match store.readText file with
  | .error fault => .error (.read file fault)
  | .ok text =>
    match lowerSource passes file.text text with
    | .error e => .error (.lower file (.source e))
    | .ok nodes =>
      match Node.residual? nodes with
      | some i => .error (.residual i)
      | none => .ok ()

/-- The failure of a computation, if it failed. -/
def failureOf {α : Type} : Except Failure α → Option Failure
  | .error failure => some failure
  | .ok _ => none

/-- The failures of checking files. -/
def checkAll (passes : Pipeline) (store : Store) (files : List Path) : List Failure :=
  files.filterMap fun file => failureOf (checkFile passes store file)

/-! ## What is logged -/

namespace Log

/-- The events of lowering the text of a file that can be read. -/
def ofText (passes : Pipeline) (store : Store) (file : Path) : List Event :=
  match store.readText file with
  | .error _ => []
  | .ok text => ofSource passes file.text text

/-- The events of lowering a file. -/
def ofFile (passes : Pipeline) (store : Store) (file : Path) : List Event :=
  .reading file.text :: ofText passes store file

/-- The events of lowering several files. -/
def ofFiles (passes : Pipeline) (directory : Option Path) : Store → List Path → List Event
  | _, [] => []
  | store, file :: files =>
    ofFile passes store file ++
      match lowerTo passes directory store file with
      | .ok store =>
        .written file.text (destination directory file).text ::
          ofFiles passes directory store files
      | .error _ => ofFiles passes directory store files

/-- The events of checking a file. -/
def ofCheck (passes : Pipeline) (store : Store) (file : Path) : List Event :=
  ofText passes store file ++
    match checkFile passes store file with
    | .ok _ => [.checked file.text]
    | .error _ => []

/-- The events of the failures of single files. -/
def ofFailures (failures : List Failure) : List Event :=
  failures.map fun failure => .failed failure.chain

end Log

/-! ## Commands -/

/-- What a command did. -/
structure Effect where
  output : String
  events : List Log.Event
  failure : Option Failure
  store : Store

/-- Lowers one file, to standard output or to a file. -/
def runLowerOne (passes : Pipeline) (target : Option Path) (store : Store) (file : Path) : Effect :=
  let events := Log.ofFile passes store file
  match lowerFile passes store file, target with
  | .error e, _ => ⟨"", events, some (.lower file e), store⟩
  | .ok text, none => ⟨text, events, none, store⟩
  | .ok text, some path =>
    match store.writeText path text with
    | .error fault => ⟨"", events, some (.write path fault), store⟩
    | .ok store => ⟨"", events, none, store⟩

/-- Lowers several files, each to a file of its own. -/
def runLowerMany (passes : Pipeline) (directory : Option Path) (store : Store)
    (files : List Path) : Effect :=
  match makeTarget directory store with
  | .error failure => ⟨"", [], some failure, store⟩
  | .ok store =>
    let (after, failures) := lowerAll passes directory store files
    let events := Log.ofFiles passes directory store files ++ Log.ofFailures failures
    ⟨"", events, overallFailure failures files.length, after⟩

/-- Checks files. -/
def runCheck (passes : Pipeline) (store : Store) (files : List Path) : Effect :=
  let failures := checkAll passes store files
  let events := files.flatMap (Log.ofCheck passes store) ++ Log.ofFailures failures
  ⟨"", events, overallFailure failures files.length, store⟩

/-- A line about a pass: its place among the configured passes, its name and what it does. -/
def passLine (configured : Pipeline) (p : Pass) : String :=
  let place := match configured.idxOf? p with
    | some i => (i + 1).repr
    | none => "-"
  "".pushn ' ' (2 - place.length) ++ place ++ "  " ++ p.name ++
    "".pushn ' ' (14 - p.name.length) ++ p.description ++ "\n"

/-- The name of the tool. -/
def Tool.name : String := "macrolower"

/-- The version of the tool. -/
def Tool.version : String := "0.1.0"

/-- The line that names the tool and its version. -/
def versionLine : String :=
  Tool.name ++ " " ++ Tool.version ++ "\n"

/-- The passes that a command asks for, or the configured ones when it asks for none. -/
def chosenPasses (settings : Settings) (asked : Pipeline) : Pipeline :=
  if asked.isEmpty then settings.passes else asked

/-- Runs a command under settings. -/
def Command.run (settings : Settings) (store : Store) : Command → Effect
  | lower [file] output asked => runLowerOne (chosenPasses settings asked) output store file
  | lower files output asked => runLowerMany (chosenPasses settings asked) output store files
  | check files asked => runCheck (chosenPasses settings asked) store files
  | passes => ⟨String.join (Pass.all.map (passLine settings.passes)), [], none, store⟩
  | version => ⟨versionLine, [], none, store⟩

/-! ## Whole runs -/

/-- What a run shows and leaves behind. -/
structure Outcome where
  code : Nat
  output : String
  errors : String
  failure : Option Failure
  store : Store

/-- The outcome of what a command did, under a log level. -/
def Effect.outcome (e : Effect) (level : Log.Level) : Outcome where
  code := if e.failure.isSome then 1 else 0
  output := e.output
  errors := Log.render level e.events ++ (e.failure.map Failure.report).getD ""
  failure := e.failure
  store := e.store

/-- Runs an invocation in a directory.  Settings are resolved before the command starts. -/
def Invocation.run (i : Invocation) (env : Environment) (directory : Path) (store : Store) :
    Outcome :=
  match Settings.resolve store env i.settings directory with
  | .error e => Effect.outcome ⟨"", [], some (.settings e), store⟩ .error
  | .ok settings =>
    let level := if i.verbose then .debug else settings.level
    (i.command.run settings store).outcome level

/-- The commands and options in short. -/
def helpText : String :=
  "Usage: " ++ Tool.name ++ " [-v] [--config PATH] COMMAND\n\n" ++
    "  lower FILE... [-o PATH] [--pass PASS]...\n" ++
    "  check FILE... [--pass PASS]...\n" ++
    "  passes\n" ++
    "  version\n"

/-- Runs the tool on a list of arguments, unless they are refused. -/
def execute (words : List String) (env : Environment) (directory : Path) (store : Store) :
    Except Arguments.UsageError Outcome :=
  match Invocation.ofArguments words with
  | .ok invocation => .ok (invocation.run env directory store)
  | .error (.usage e) => .error e
  | .error .showVersion => .ok ⟨0, versionLine, "", none, store⟩
  | .error .showHelp => .ok ⟨0, helpText, "", none, store⟩

end MacroAsm
