import MacroAsm.Toml.Scalar

/-!
# TOML documents

A document is a sequence of lines: key and value pairs, and headers that say which table the pairs
below them go to.  Arrays and inline tables may run over several lines, hold comments and end in a
comma.  Strings that run over several lines, and dates, are not read.

A key has at most `maxKeyParts` parts, and values are nested at most `maxDepth` deep.

The readers of nested values take a bound on how many more values they may enter; `readValue` and
`parse?` give them one that the length of the text never exceeds.

## Main definitions

* `readKey` — a dotted key.
* `readValue` — a value.
* `parse?` — the entries of a document.
-/

namespace MacroAsm.Toml

/-! ## Blank space and comments -/

mutual

/-- Skips spaces, line ends and comments; there is no result when a comment holds a control. -/
def skipBlank : List Char → Option (List Char)
  | ' ' :: cs => skipBlank cs
  | '\t' :: cs => skipBlank cs
  | '\n' :: cs => skipBlank cs
  | '\r' :: '\n' :: cs => skipBlank cs
  | '#' :: cs => skipComment cs
  | cs => some cs

/-- Skips the rest of a comment and what `skipBlank` skips after it. -/
def skipComment : List Char → Option (List Char)
  | [] => some []
  | '\n' :: cs => skipBlank cs
  | '\r' :: '\n' :: cs => skipBlank cs
  | c :: cs => if isPlain c then skipComment cs else none

end

/-- The text after a line that has nothing more than spaces and a comment. -/
def endLine (cs : List Char) : Option (List Char) :=
  match skipSpaces cs with
  | [] => some []
  | '\n' :: rest => some rest
  | '\r' :: '\n' :: rest => some rest
  | '#' :: rest => skipComment rest
  | _ => none

/-! ## Keys -/

/-- A character of a key that is written without quotes. -/
def isKeyChar (c : Char) : Bool :=
  c.isAlphanum || c == '_' || c == '-'

/-- One part of a key: a string or a word. -/
def readSimpleKey : List Char → Option (String × List Char)
  | '"' :: cs => (readBasicString cs).map fun (key, rest) => (String.ofList key, rest)
  | '\'' :: cs => (readLiteralString cs).map fun (key, rest) => (String.ofList key, rest)
  | cs =>
    let key := cs.takeWhile isKeyChar
    if key.isEmpty then none else some (String.ofList key, cs.dropWhile isKeyChar)

/-- The largest number of parts that a dotted key may have. -/
def maxKeyParts : Nat := 80

/-- The parts of a key, the last one apart, within a bound on their number. -/
def readKeyParts : (bound : Nat) → List Char → Option ((List String × String) × List Char)
  | 0, _ => none
  | bound + 1, cs => do
    let (key, rest) ← readSimpleKey cs
    match skipSpaces rest with
    | '.' :: rest => do
      let ((path, last), rest) ← readKeyParts bound (skipSpaces rest)
      return ((key :: path, last), rest)
    | rest => return (([], key), rest)

/-- A dotted key, and the text after it and the spaces that follow. -/
def readKey (cs : List Char) : Option ((List String × String) × List Char) :=
  readKeyParts maxKeyParts cs

/-! ## Values -/

/-- How many arrays and inline tables may be open at one place. -/
def maxDepth : Nat := 80

mutual

/-- A value in which `depth` arrays and inline tables may still be opened in each other. -/
def readValueWithin : (bound depth : Nat) → List Char → Option (Value × List Char)
  | 0, _, _ => none
  | _ + 1, _, '"' :: cs =>
    (readBasicString cs).map fun (text, rest) => (.string (String.ofList text), rest)
  | _ + 1, _, '\'' :: cs =>
    (readLiteralString cs).map fun (text, rest) => (.string (String.ofList text), rest)
  | _ + 1, 0, '[' :: _ => none
  | bound + 1, depth + 1, '[' :: cs =>
    (readItems bound depth cs).map fun (items, rest) => (.array items, rest)
  | _ + 1, 0, '\x7b' :: _ => none
  | bound + 1, depth + 1, '\x7b' :: cs =>
    (readPairs bound depth [] cs).map fun (entries, rest) => (.table .inline entries, rest)
  | _ + 1, _, cs => readWord cs

/-- The items of an array, up to and with its closing bracket. -/
def readItems : (bound depth : Nat) → List Char → Option (List Value × List Char)
  | 0, _, _ => none
  | bound + 1, depth, cs => do
    match ← skipBlank cs with
    | ']' :: rest => return ([], rest)
    | cs => do
      let (item, rest) ← readValueWithin bound depth cs
      match ← skipBlank rest with
      | ']' :: rest => return ([item], rest)
      | ',' :: rest => do
        let (items, rest) ← readItems bound depth rest
        return (item :: items, rest)
      | _ => none

/-- The pairs of an inline table, up to and with its closing brace.  Between a key, its equals sign
and its value there may be line ends and comments. -/
def readPairs : (bound depth : Nat) → Entries → List Char → Option (Entries × List Char)
  | 0, _, _, _ => none
  | bound + 1, depth, entries, cs => do
    match ← skipBlank cs with
    | '\x7d' :: rest => return (entries, rest)
    | cs => do
      let ((path, key), rest) ← readKey cs
      match ← skipBlank rest with
      | '=' :: rest => do
        let (value, rest) ← readValueWithin bound depth (← skipBlank rest)
        let entries ← entries.insert? path key value
        match ← skipBlank rest with
        | '\x7d' :: rest => return (entries, rest)
        | ',' :: rest => readPairs bound depth entries rest
        | _ => none
      | _ => none

end

/-- A value.  Every value takes a character, and a container enters at most one more reader for
each of its values, so twice the length is bound enough. -/
def readValue (cs : List Char) : Option (Value × List Char) :=
  readValueWithin (2 * cs.length + 2) maxDepth cs

/-! ## Lines -/

/-- A document as far as it is read: its entries, and the path of the table that takes the pairs. -/
structure Draft where
  entries : Entries
  current : List String

namespace Draft

/-- The draft with nothing in it. -/
def empty : Draft := ⟨[], []⟩

/-- Adds a pair to the current table. -/
def addPair (d : Draft) (path : List String) (key : String) (value : Value) : Option Draft := do
  let entries ← Entries.descend .header (fun _ inner => inner.insert? path key value) d.current
    .headed d.entries
  return { d with entries }

/-- Goes on with the table of a header. -/
def enterTable (d : Draft) (path : List String) (key : String) : Option Draft := do
  return ⟨← d.entries.openTable? path key, path ++ [key]⟩

/-- Goes on with a new element of an array of tables. -/
def enterElement (d : Draft) (path : List String) (key : String) : Option Draft := do
  return ⟨← d.entries.openElement? path key, path ++ [key]⟩

end Draft

/-- A header or a pair, up to the end of its line. -/
def readStatement (d : Draft) : List Char → Option (Draft × List Char)
  | '[' :: '[' :: cs => do
    let ((path, key), rest) ← readKey (skipSpaces cs)
    match rest with
    | ']' :: ']' :: rest => return (← d.enterElement path key, ← endLine rest)
    | _ => none
  | '[' :: cs => do
    let ((path, key), rest) ← readKey (skipSpaces cs)
    match rest with
    | ']' :: rest => return (← d.enterTable path key, ← endLine rest)
    | _ => none
  | cs => do
    let ((path, key), rest) ← readKey cs
    match rest with
    | '=' :: rest => do
      let (value, rest) ← readValue (skipSpaces rest)
      return (← d.addPair path key value, ← endLine rest)
    | _ => none

/-- The statements of a document, within a bound on their number. -/
def readStatements : (bound : Nat) → Draft → List Char → Option Draft
  | 0, _, _ => none
  | bound + 1, d, cs => do
    match ← skipBlank cs with
    | [] => return d
    | cs => do
      let (d, rest) ← readStatement d cs
      readStatements bound d rest

/-- The entries of a document; there are none when the text is not a document.  A byte order mark at
the start is skipped. -/
def parse? (text : String) : Option Entries := do
  let cs := match text.toList with
    | '\ufeff' :: cs => cs
    | cs => cs
  let d ← readStatements (cs.length + 1) .empty cs
  return d.entries

end MacroAsm.Toml
