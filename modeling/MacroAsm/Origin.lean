/-!
# Where a piece of a listing comes from

Every node carries the place it was read from.  Lines and columns count from one, and columns count
UTF-8 bytes; line zero marks a place that is not in any file.

## Main definitions

* `Position` — a line and a column.
* `Span` — a start and an exclusive end.
* `Origin` — a span of a named file.
-/

namespace MacroAsm

/-- A line and a column. -/
structure Position where
  line : Nat
  column : Nat
deriving DecidableEq, Repr

namespace Position

/-- The position before every line. -/
def zero : Position := ⟨0, 0⟩

/-- The text `line:column`. -/
def text (p : Position) : String :=
  p.line.repr ++ ":" ++ p.column.repr

end Position

/-- A stretch of text from `start` up to, and without, `stop`. -/
structure Span where
  start : Position
  stop : Position
deriving DecidableEq, Repr

namespace Span

/-- The span that covers nothing. -/
def zero : Span := ⟨.zero, .zero⟩

/-- A span of `length` bytes within one line. -/
def onLine (line column length : Nat) : Span :=
  ⟨⟨line, column⟩, ⟨line, column + length⟩⟩

/-- A span that starts on line zero is not in any file. -/
def isDummy (s : Span) : Bool :=
  s.start.line == 0

/-- The text `[start - stop]`. -/
def text (s : Span) : String :=
  "[" ++ s.start.text ++ " - " ++ s.stop.text ++ "]"

@[simp] theorem isDummy_zero : isDummy zero = true := rfl

end Span

/-- A span of a file, the file being named as its reader was given it. -/
structure Origin where
  file : String
  span : Span
deriving DecidableEq, Repr

namespace Origin

/-- The origin of what no file holds. -/
def synthetic : Origin := ⟨"<synthetic>", .zero⟩

/-- The line an origin starts on. -/
def line (o : Origin) : Nat :=
  o.span.start.line

/-- The text `file:line:column` of the start, or the file alone when the span is a dummy. -/
def text (o : Origin) : String :=
  if o.span.isDummy then o.file else o.file ++ ":" ++ o.span.start.text

end Origin

end MacroAsm
