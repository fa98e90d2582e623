import MacroAsm.Files.Path
import MacroAsm.Lowering.Pipeline

/-!
# Command line arguments

The words after the tool's name say what it is asked to do.  Options stand before or after the
command they belong to.  A long option takes its value after `=` or as the next word; short options
may be run together, and the value of one may follow it directly.  After `--` every word is a file.

An option that shows the version or the help answers as soon as it is read, so a mistake counts only
when it stands before it.

## Main definitions

* `Command`, `Invocation` — what is asked for.
* `UsageError` — why arguments are refused.
* `Stop` — why reading arguments ends early.
* `Invocation.ofArguments` — the invocation that a list of words stands for.
-/

namespace MacroAsm

/-- What the tool is asked to do. -/
inductive Command where
  | lower (files : List Path) (output : Option Path) (passes : Pipeline)
  | check (files : List Path) (passes : Pipeline)
  | passes
  | version
deriving DecidableEq, Repr

/-- A command and the options that every command has. -/
structure Invocation where
  command : Command
  verbose : Bool
  settings : Option Path
deriving DecidableEq, Repr

namespace Arguments

/-- The options. -/
inductive Switch where
  | verbose
  | config
  | output
  | pass
  | version
  | help
deriving DecidableEq, Repr

/-- The part of the command line that is being read: before the command, or after one. -/
inductive Context where
  | top
  | lower
  | check
  | passes
  | version
deriving DecidableEq, Repr

/-- Why arguments are refused. -/
inductive UsageError where
  | missingCommand
  | unknownCommand (word : String)
  | unknownOption (word : String)
  | missingValue (option : Switch)
  | emptyValue (word : String)
  | unexpectedValue (option : Switch)
  | repeated (option : Switch)
  | unknownPass (name : String)
  | missingFile
  | unexpectedWord (word : String)
deriving DecidableEq, Repr

/-- Why reading ends before the last word. -/
inductive Stop where
  | usage (e : UsageError)
  | showVersion
  | showHelp
deriving DecidableEq, Repr

namespace Switch

/-- All options. -/
def all : List Switch := [verbose, config, output, pass, version, help]

/-- The long name of an option, without the dashes. -/
def longName : Switch → String
  | verbose => "verbose"
  | config => "config"
  | output => "output"
  | pass => "pass"
  | version => "version"
  | help => "help"

/-- The letter of an option, if it has one. -/
def letter? : Switch → Option Char
  | verbose => some 'v'
  | output => some 'o'
  | version => some 'V'
  | help => some 'h'
  | _ => none

/-- Whether an option has a value. -/
def takesValue : Switch → Bool
  | config => true
  | output => true
  | pass => true
  | _ => false

end Switch

namespace Context

/-- The context that a command's name opens. -/
def ofCommand? : String → Option Context
  | "lower" => some lower
  | "check" => some check
  | "passes" => some passes
  | "version" => some version
  | _ => none

/-- Whether an option may stand in a context. -/
def allows : Context → Switch → Bool
  | _, .verbose => true
  | _, .config => true
  | _, .help => true
  | top, .version => true
  | lower, .output => true
  | lower, .pass => true
  | check, .pass => true
  | _, _ => false

/-- Whether files may stand in a context. -/
def takesFiles : Context → Bool
  | lower => true
  | check => true
  | _ => false

/-- The option of a long name. -/
def ofLongName? (c : Context) (name : String) : Option Switch :=
  Switch.all.find? fun s => c.allows s && s.longName == name

/-- The option of a letter. -/
def ofLetter? (c : Context) (letter : Char) : Option Switch :=
  Switch.all.find? fun s => c.allows s && s.letter? == some letter

end Context

/-- What was read in one context. -/
structure Gathered where
  verbose : Bool
  config : Option Path
  output : Option Path
  passes : Pipeline
  files : List Path
deriving DecidableEq, Repr

namespace Gathered

/-- Nothing was read. -/
def empty : Gathered := ⟨false, none, none, [], []⟩

/-- Adds an option without a value. -/
def addFlag (g : Gathered) : Switch → Except Stop Gathered
  | .verbose =>
    if g.verbose then .error (.usage (.repeated .verbose)) else .ok { g with verbose := true }
  | .version => .error .showVersion
  | .help => .error .showHelp
  | s => .error (.usage (.missingValue s))

/-- Adds an option with its value.  Paths are given at most once. -/
def addValue (g : Gathered) (s : Switch) (value : String) : Except Stop Gathered :=
  if value.isEmpty then .error (.usage (.emptyValue s.longName))
  else
    match s with
    | .config =>
      if g.config.isSome then .error (.usage (.repeated s))
      else .ok { g with config := some ⟨value⟩ }
    | .output =>
      if g.output.isSome then .error (.usage (.repeated s))
      else .ok { g with output := some ⟨value⟩ }
    | .pass =>
      match Pass.ofName? value with
      | some p => .ok { g with passes := g.passes ++ [p] }
      | none => .error (.usage (.unknownPass value))
    | _ => .error (.usage (.unexpectedValue s))

/-- Adds a file. -/
def addFile (g : Gathered) (c : Context) (word : String) : Except Stop Gathered :=
  if !c.takesFiles then .error (.usage (.unexpectedWord word))
  else if word.isEmpty then .error (.usage (.emptyValue word))
  else .ok { g with files := g.files ++ [⟨word⟩] }

/-- Reads short options that are run together; one that still waits for its value comes last. -/
def addLetters (c : Context) (word : String) :
    Gathered → List Char → Except Stop (Gathered × Option Switch)
  | g, [] => .ok (g, none)
  | g, letter :: letters =>
    match c.ofLetter? letter with
    | none => .error (.usage (.unknownOption word))
    | some s =>
      if s.takesValue then
        match letters with
        | [] => .ok (g, some s)
        | '=' :: value => (g.addValue s (String.ofList value)).map (·, none)
        | value => (g.addValue s (String.ofList value)).map (·, none)
      else do
        addLetters c word (← g.addFlag s) letters

end Gathered

/-- The kinds of words. -/
inductive Word where
  | separator
  | long (name : String) (value : Option String)
  | short (letters : List Char)
  | plain
deriving DecidableEq, Repr

/-- The kind of a word.  A single dash is no option. -/
def Word.of (word : String) : Word :=
  match word.toList with
  | ['-', '-'] => separator
  | '-' :: '-' :: cs =>
    let name := String.ofList (cs.takeWhile (· != '='))
    match cs.dropWhile (· != '=') with
    | [] => long name none
    | _ :: value => long name (some (String.ofList value))
  | '-' :: letter :: letters => short (letter :: letters)
  | _ => plain

/-- A word that can be the value of the option before it. -/
def isValue (word : String) : Bool :=
  Word.of word == .plain

/-- Why reading ends at the word `help`, given the words after it: help is there for the tool and
for each command, `help` itself among them. -/
def helpStop : List String → Stop
  | [] => .showHelp
  | [word] =>
    if word = "help" || (Context.ofCommand? word).isSome then .showHelp
    else .usage (.unknownCommand word)
  | _ :: word :: _ => .usage (.unknownCommand word)

/-- Takes the value of an option from the words after it. -/
def takeValue (g : Gathered) (s : Switch) : List String → Except Stop Gathered
  | value :: _ => if isValue value then g.addValue s value else .error (.usage (.missingValue s))
  | [] => .error (.usage (.missingValue s))

/-- Reads the words of a context, up to the command that opens another one. -/
def readWords (c : Context) (g : Gathered) (words : List String) :
    Except Stop (Gathered × Option (Context × List String)) :=
  match words with
  | [] => .ok (g, none)
  | word :: rest =>
    match Word.of word with
    | .separator => do
      let g ← rest.foldlM (·.addFile c ·) g
      return (g, none)
    | .long name value =>
      match c.ofLongName? name, value with
      | none, _ => .error (.usage (.unknownOption word))
      | some s, some value => do
        if !s.takesValue then throw (.usage (.unexpectedValue s))
        readWords c (← g.addValue s value) rest
      | some s, none =>
        if s.takesValue then do
          readWords c (← takeValue g s rest) rest.tail
        else do
          readWords c (← g.addFlag s) rest
    | .short letters => do
      match ← g.addLetters c word letters with
      | (g, none) => readWords c g rest
      | (g, some s) => readWords c (← takeValue g s rest) rest.tail
    | .plain =>
      if c = .top then
        match Context.ofCommand? word with
        | some command => .ok (g, some (command, rest))
        | none =>
          .error (if word = "help" then helpStop rest else .usage (.unknownCommand word))
      else do
        readWords c (← g.addFile c word) rest
termination_by words.length
decreasing_by all_goals simp_all +arith [List.length_tail]

end Arguments

open Arguments in
/-- The command of a context with what was read in it. -/
def Command.ofGathered (c : Context) (g : Gathered) : Except Stop Command :=
  if c.takesFiles && g.files.isEmpty then .error (.usage .missingFile)
  else
    match c with
    | .top => .error (.usage .missingCommand)
    | .lower => .ok (.lower g.files g.output g.passes)
    | .check => .ok (.check g.files g.passes)
    | .passes => .ok .passes
    | .version => .ok .version

open Arguments in
/-- The invocation that a list of words stands for.  A settings file that is named after the command
wins over one that is named before it. -/
def Invocation.ofArguments (words : List String) : Except Stop Invocation := do
  let (outer, opened) ← readWords .top .empty words
  match opened with
  | none => throw (.usage .missingCommand)
  | some (context, words) =>
    let (inner, _) ← readWords context .empty words
    let command ← Command.ofGathered context inner
    return ⟨command, outer.verbose || inner.verbose, inner.config <|> outer.config⟩

end MacroAsm
