/-!
# Log levels

How much a run tells about itself.  A level lets through the lines of its own level and of those
that are graver.
-/

namespace MacroAsm.Log

/-- The gravity of a log line, from the least to the most. -/
inductive Level where
  | trace
  | debug
  | info
  | warn
  | error
deriving DecidableEq, Repr

namespace Level

/-- All levels, from the least grave to the gravest. -/
def all : List Level := [trace, debug, info, warn, error]

/-- The name of a level in settings. -/
def name : Level → String
  | trace => "trace"
  | debug => "debug"
  | info => "info"
  | warn => "warn"
  | error => "error"

/-- The level of a name. -/
def ofName? (name : String) : Option Level :=
  all.find? (·.name == name)

/-- The name of a level in a log line. -/
def title : Level → String
  | trace => "TRACE"
  | debug => "DEBUG"
  | info => "INFO"
  | warn => "WARN"
  | error => "ERROR"

/-- How grave a level is. -/
def gravity : Level → Nat
  | trace => 0
  | debug => 1
  | info => 2
  | warn => 3
  | error => 4

/-- Whether a line of level `line` is let through. -/
def admits (level line : Level) : Bool :=
  level.gravity ≤ line.gravity

@[simp] theorem ofName?_name (l : Level) : ofName? l.name = some l := by
  cases l <;> decide

@[simp] theorem admits_self (l : Level) : l.admits l = true := by
  simp [admits]

end Level

end MacroAsm.Log
