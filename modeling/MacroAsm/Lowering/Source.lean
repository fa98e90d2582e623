import MacroAsm.Files.Store
import MacroAsm.Listing.Reader
import MacroAsm.Lowering.Pipeline

/-!
# Lowering a listing

Reading, lowering and printing in one.  Fresh temporaries are numbered above those the text already
uses.  The text of a file is lowered under the file's path as its name.

## Main definitions

* `SourceError` — why a text cannot be lowered.
* `lowerSource` — the lowered nodes of a text.
* `lowerText` — the lowered text of a text.
* `FileError` — why a file cannot be lowered.
* `lowerFile` — the lowered text of a file.
-/

namespace MacroAsm

/-- Why a text cannot be lowered: it cannot be read, or an instruction cannot be replaced. -/
inductive SourceError where
  | read (e : Listing.ReadError)
  | lower (e : LowerError)
deriving DecidableEq, Repr

namespace SourceError

/-- The wording of an error. -/
def message : SourceError → String
  | read e => e.message
  | lower e => e.message

/-- The place that is at fault. -/
def origin : SourceError → Origin
  | read e => e.origin
  | lower e => e.origin

end SourceError

/-- Lowers the nodes of one text, whose temporaries start above those in use. -/
def lowerNodes (passes : Pipeline) (nodes : List Node) : Except LowerError (List Node) × Supply :=
  (passes.run nodes).runFrom (.above (Node.maxTemporary nodes))

/-- The lowered nodes of a text that is read under the name `file`. -/
def lowerSource (passes : Pipeline) (file text : String) : Except SourceError (List Node) :=
  match Listing.read file text with
  | .error e => .error (.read e)
  | .ok nodes =>
    match (lowerNodes passes nodes).1 with
    | .error e => .error (.lower e)
    | .ok lowered => .ok lowered

/-- The lowered text of a text that is read under the name `file`. -/
def lowerText (passes : Pipeline) (file text : String) : Except SourceError String :=
  (lowerSource passes file text).map Node.print

/-- Why a file cannot be lowered. -/
inductive FileError where
  | read (path : Path) (fault : Files.Fault)
  | source (e : SourceError)
deriving DecidableEq, Repr

/-- The wording of an error and of its causes, the outermost first. -/
def FileError.chain : FileError → List String
  | read path fault => ["Failed to read: " ++ path.text, fault.message]
  | source e => [e.message]

/-- The lowered text of a file. -/
def lowerFile (passes : Pipeline) (store : Files.Store) (path : Path) : Except FileError String :=
  match store.readText path with
  | .error fault => .error (.read path fault)
  | .ok text =>
    match lowerText passes path.text text with
    | .error e => .error (.source e)
    | .ok lowered => .ok lowered

end MacroAsm
