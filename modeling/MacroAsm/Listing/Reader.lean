import MacroAsm.Listing.Field
import MacroAsm.Node

/-!
# Reading a listing

A listing is read line by line.  What a line holds is decided by its trimmed content alone: a
comment starts with `#` or `//`, a label ends in a colon, a directive starts with a dot, and all
else is an instruction.  The first line that cannot be read ends the reading.

## Main definitions

* `readContent` — the node that a trimmed line stands for.
* `readLine` — the node of a line, with its origin; a blank line has none.
* `read` — the nodes of a text.
-/

namespace MacroAsm.Listing

/-- The text of a comment, when `content` is one. -/
def comment? : List Char → Option (List Char)
  | '#' :: rest => some (Text.trim rest)
  | '/' :: '/' :: rest => some (Text.trim rest)
  | _ => none

/-- The name of a label, when `content` ends in a colon. -/
def label? (content : List Char) : Option (List Char) :=
  if content.getLast? = some ':' then some (Text.trim content.dropLast) else none

/-- The part of an instruction before a trailing comment. -/
def instructionBody (content : List Char) : List Char :=
  Text.trimEnd (content.takeWhile (· != '#'))

/-- An instruction: the mnemonic ends at the first white space, the operand fields follow. -/
def readInstruction (origin : Origin) (content : List Char) : Except Fault Instruction := do
  let body := instructionBody content
  let mnemonic := body.takeWhile (!Text.isBlank ·)
  let fields ← splitFields (Text.trim (body.dropWhile (!Text.isBlank ·)))
  let operands ← fields.mapM (readOperand origin)
  return ⟨.ofMnemonic (String.ofList mnemonic), operands, origin⟩

/-- The node that a trimmed line stands for. -/
def readContent (origin : Origin) (content : List Char) : Except Fault Node :=
  match comment? content with
  | some text => .ok (.comment (String.ofList text) origin)
  | none =>
    match label? content with
    | some [] => .error .emptyLabel
    | some name => .ok (.label (String.ofList name) origin)
    | none =>
      if content.head? = some '.' then
        .ok (.directive (String.ofList content) origin)
      else
        (readInstruction origin content).map .instruction

/-- The origin of a line's content: it starts after the leading white space and ends where the
trimmed line ends. -/
def lineOrigin (file : String) (number : Nat) (line : List Char) : Origin :=
  let column := 1 + Text.byteLength (line.takeWhile Text.isBlank)
  ⟨file, .onLine number column (Text.byteLength (Text.trim line))⟩

/-- The node of line `number`; a blank line has none. -/
def readLine (file : String) (number : Nat) (line : List Char) :
    Except ReadError (Option Node) :=
  let content := Text.trim line
  if content.isEmpty then
    .ok none
  else
    let origin := lineOrigin file number line
    match readContent origin content with
    | .ok node => .ok (some node)
    | .error fault => .error ⟨fault, origin⟩

/-- The nodes of consecutive lines, the first of them being line `number`. -/
def readLines (file : String) : (number : Nat) → List (List Char) → Except ReadError (List Node)
  | _, [] => .ok []
  | number, line :: lines => do
    let node ← readLine file number line
    let nodes ← readLines file (number + 1) lines
    return node.toList ++ nodes

/-- The nodes of a text that is read under the name `file`. -/
def read (file text : String) : Except ReadError (List Node) :=
  readLines file 1 (Text.lines text.toList)

@[simp] theorem readLines_nil (file : String) (number : Nat) :
    readLines file number [] = .ok [] := rfl

end MacroAsm.Listing
