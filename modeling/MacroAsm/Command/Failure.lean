import MacroAsm.Lowering.Source
import MacroAsm.Settings.Location

/-!
# How a command fails

A failure has a message and the causes behind it.  In the log they stand on one line; at the end of
a run the causes are listed below the message.

## Main definitions

* `Failure` — why a command, or its work on one file, failed.
* `Failure.chain` — message and causes, the outermost first.
* `Failure.report` — the text at the end of a run.
-/

namespace MacroAsm

/-- Why a command, or its work on one file, failed. -/
inductive Failure where
  | settings (e : SettingsError)
  | lower (file : Path) (e : FileError)
  | read (file : Path) (fault : Files.Fault)
  | write (file : Path) (fault : Files.Fault)
  | create (directory : Path) (fault : Files.Fault)
  | residual (i : Instruction)
  | filesFailed (failed total : Nat)
deriving DecidableEq, Repr

namespace Failure

/-- What failed. -/
def message : Failure → String
  | settings _ => "Failed to load config"
  | lower file _ => "Failed to lower: " ++ file.text
  | read file _ => "Failed to read: " ++ file.text
  | write file _ => "Failed to write: " ++ file.text
  | create directory _ => "Failed to create: " ++ directory.text
  | residual i => i.origin.text ++ ": `" ++ i.opcode.mnemonic ++ "` is still present after lowering"
  | filesFailed failed total => failed.repr ++ " of " ++ total.repr ++ " files failed"

/-- Why it failed, the outermost cause first. -/
def causes : Failure → List String
  | settings e => [e.message]
  | lower _ e => e.chain
  | read _ fault => [fault.message]
  | write _ fault => [fault.message]
  | create _ fault => [fault.message]
  | residual _ => []
  | filesFailed _ _ => []

/-- Message and causes, the outermost first. -/
def chain (f : Failure) : List String :=
  f.message :: f.causes

/-- A text whose lines after the first are moved to the right by `width` columns. -/
def hang (width : Nat) (s : String) : String :=
  String.ofList (s.toList.flatMap fun c =>
    if c = '\n' then '\n' :: List.replicate width ' ' else [c])

/-- A cause with its number, which is right-aligned in five columns. -/
def numbered (cause : String) (number : Nat) : String :=
  let digits := number.repr
  "\n" ++ "".pushn ' ' (5 - digits.length) ++ digits ++ ": " ++ hang 7 cause

/-- The list of causes below a message; a single cause has no number. -/
def causeList : List String → String
  | [] => ""
  | [cause] => "\n\nCaused by:\n    " ++ hang 4 cause
  | causes => "\n\nCaused by:" ++ String.join (causes.mapIdx fun i cause => numbered cause i)

/-- The text at the end of a run that failed. -/
def report (f : Failure) : String :=
  "Error: " ++ f.message ++ causeList f.causes ++ "\n"

end Failure

end MacroAsm
