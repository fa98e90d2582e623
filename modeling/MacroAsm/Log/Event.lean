import MacroAsm.Log.Level
import MacroAsm.Lowering.Pipeline
import MacroAsm.Text.Quoted

/-!
# Log events

What a run reports while it works, as data.  An event has a level and a text, and a log keeps the
lines that its level admits.

## Main definitions

* `Event` — something a run reports.
* `Event.line` — its line in the log.
* `render` — the lines that a level admits.
-/

namespace MacroAsm.Log

/-- Something a run reports. -/
inductive Event where
  /-- A file is about to be read. -/
  | reading (file : String)
  /-- A text was read. -/
  | parsed (file : String) (nodes : Nat)
  /-- A pass replaced an instruction. -/
  | replaced (pass : Pass) (instruction : Instruction) (emitted : Nat)
  /-- A pass went through all nodes. -/
  | passFinished (pass : Pass) (nodes count temporaries : Nat)
  /-- All passes are done. -/
  | pipelineFinished (passes input output : Nat)
  /-- A text was lowered. -/
  | lowered (file : String) (temporaries : Nat)
  /-- A lowered text was written. -/
  | written (file destination : String)
  /-- A file has nothing left to lower. -/
  | checked (file : String)
  /-- Something failed, with its causes. -/
  | failed (chain : List String)
deriving Repr

namespace Event

/-- The level of an event. -/
def level : Event → Level
  | reading _ => .debug
  | parsed _ _ => .debug
  | replaced _ _ _ => .trace
  | passFinished _ _ _ _ => .debug
  | pipelineFinished _ _ _ => .debug
  | lowered _ _ => .debug
  | written _ _ => .info
  | checked _ => .info
  | failed _ => .error

/-- What an event says: a message and named values. -/
def text : Event → String
  | reading file => "reading listing file=" ++ file
  | parsed file nodes => "parsed listing file=" ++ Text.quoted file ++ " nodes=" ++ nodes.repr
  | replaced pass i emitted =>
    "rewrote instruction pass=" ++ Text.quoted pass.name ++ " origin=" ++ i.origin.text ++
      " opcode=" ++ i.opcode.mnemonic ++ " emitted=" ++ emitted.repr
  | passFinished pass nodes count temporaries =>
    "lowering pass finished pass=" ++ Text.quoted pass.name ++ " nodes=" ++ nodes.repr ++
      " rewritten=" ++ count.repr ++ " temporaries=" ++ temporaries.repr
  | pipelineFinished passes input output =>
    "pipeline finished passes=" ++ passes.repr ++ " input=" ++ input.repr ++ " output=" ++
      output.repr
  | lowered file temporaries =>
    "lowered listing file=" ++ Text.quoted file ++ " temporaries=" ++ temporaries.repr
  | written file destination => Text.safe (file ++ " -> " ++ destination)
  | checked file => Text.safe ("ok: " ++ file)
  | failed chain => Text.safe (": ".intercalate chain)

/-- The line of an event: its level, right-aligned in five columns, and its text. -/
def line (e : Event) : String :=
  let title := e.level.title
  "".pushn ' ' (5 - title.length) ++ title ++ " " ++ e.text ++ "\n"

end Event

/-- The lines of the events that a level admits. -/
def render (level : Level) (events : List Event) : String :=
  String.join ((events.filter fun e => level.admits e.level).map Event.line)

end MacroAsm.Log
