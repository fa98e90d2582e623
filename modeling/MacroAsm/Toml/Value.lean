/-!
# TOML values

The values of a TOML document and the rules by which tables grow.  A table remembers how it came to
be, because that decides what may still be added to it.

## Main definitions

* `TableKind` — how a table came to be.
* `Value` — a value of a document.
* `Value.isHeld` — whether every number in a value fits a machine number.
* `Entries.insert?` — adds a value under a dotted key.
* `Entries.openTable?`, `Entries.openElement?` — what a header does.
-/

namespace MacroAsm.Toml

/-- How a table came to be. -/
inductive TableKind where
  /-- It is named by a header of its own, or is the document itself. -/
  | headed
  /-- It is only a parent of a table that a header names. -/
  | implied
  /-- It is a parent in a dotted key. -/
  | dotted
  /-- It is written between braces and is complete. -/
  | inline
deriving DecidableEq, Repr

/-- A value of a document.  Numbers may be of any size, and an integer may lack a value; of a
floating point number only the question whether a double can hold it is kept. -/
inductive Value where
  | string (text : String)
  | integer (value : Option Int)
  | float (finite : Bool)
  | boolean (value : Bool)
  | array (items : List Value)
  | table (kind : TableKind) (entries : List (String × Value))
  | tables (elements : List (List (String × Value)))
deriving Repr

/-- Keys and their values, in the order in which they were added. -/
abbrev Entries := List (String × Value)

namespace Value

/-- The items of a value that is some kind of array. -/
def items? : Value → Option (List Value)
  | array items => some items
  | tables elements => some (elements.map (table .headed))
  | _ => none

/-- An array or a table that holds nothing. -/
def isEmptyContainer : Value → Bool
  | array items => items.isEmpty
  | table _ entries => entries.isEmpty
  | tables elements => elements.isEmpty
  | _ => false

mutual

/-- Whether every number in a value fits a machine number: an integer has to have a value that fits
128 bits, signed when it is negative, and a floating point number has to fit a double. -/
def isHeld : Value → Bool
  | string _ => true
  | integer none => false
  | integer (some value) => -2 ^ 127 ≤ value && value < 2 ^ 128
  | float finite => finite
  | boolean _ => true
  | array items => areHeld items
  | table _ entries => areHeldEntries entries
  | tables elements => areHeldTables elements

/-- `isHeld` for the items of an array. -/
def areHeld : List Value → Bool
  | [] => true
  | item :: items => item.isHeld && areHeld items

/-- `isHeld` for the values of a table. -/
def areHeldEntries : List (String × Value) → Bool
  | [] => true
  | (_, value) :: entries => value.isHeld && areHeldEntries entries

/-- `isHeld` for the elements of an array of tables. -/
def areHeldTables : List (List (String × Value)) → Bool
  | [] => true
  | entries :: elements => areHeldEntries entries && areHeldTables elements

end

end Value

/-- The two ways to go down from a table to the tables below it. -/
inductive Descent where
  /-- Along the path of a header. -/
  | header
  /-- Along a dotted key. -/
  | key
deriving DecidableEq, Repr

namespace Descent

/-- The kind of a table that is made on the way. -/
def makes : Descent → TableKind
  | header => .implied
  | key => .dotted

/-- The kind of a table after the way has led into it.  A dotted key makes it a parent of its own,
and it cannot get a header any more. -/
def leaves : Descent → TableKind → TableKind
  | header, kind => kind
  | key, _ => .dotted

/-- Whether the way may lead into a table of a kind.  A dotted key cannot reach a table that has a
header of its own, and nothing reaches into an inline table. -/
def enters : Descent → TableKind → Bool
  | header, kind => kind != .inline
  | key, kind => kind == .implied || kind == .dotted

end Descent

namespace Entries

/-- Changes the value of a key that is there. -/
def replace (key : String) (value : Value) (entries : Entries) : Entries :=
  entries.map fun entry => if entry.1 = key then (key, value) else entry

/-- Goes down a path and changes the entries at its end; missing tables are made.  An array of
tables is entered at its last element. -/
def descend (way : Descent) (change : TableKind → Entries → Option Entries) :
    List String → TableKind → Entries → Option Entries
  | [], kind, entries => change kind entries
  | key :: path, _, entries =>
    match entries.lookup key with
    | none => do
      let inner ← descend way change path way.makes []
      return entries ++ [(key, .table way.makes inner)]
    | some (.table kind inner) =>
      if way.enters kind then do
        let inner ← descend way change path (way.leaves kind) inner
        return entries.replace key (.table (way.leaves kind) inner)
      else
        none
    | some (.tables elements) => do
      let inner ← descend way change path .headed (← elements.getLast?)
      return entries.replace key (.tables (elements.dropLast ++ [inner]))
    | some _ => none

/-- Adds a value under a dotted key.  A key is set once, and the table that takes it must be the one
where the dotted key starts or belong to the dotted key. -/
def insert? (path : List String) (key : String) (value : Value) (entries : Entries) :
    Option Entries :=
  descend .key (fun kind inner =>
    if (path.isEmpty || kind == .dotted) && (inner.lookup key).isNone then
      some (inner ++ [(key, value)])
    else
      none) path .headed entries

/-- Opens the table of a header.  A table that was only implied gets its header now; any other value
is in the way. -/
def openTable? (path : List String) (key : String) (entries : Entries) : Option Entries :=
  descend .header (fun _ inner =>
    match inner.lookup key with
    | none => some (inner ++ [(key, .table .headed [])])
    | some (.table .implied content) => some (inner.replace key (.table .headed content))
    | some _ => none) path .headed entries

/-- Opens a new element of an array of tables. -/
def openElement? (path : List String) (key : String) (entries : Entries) : Option Entries :=
  descend .header (fun _ inner =>
    match inner.lookup key with
    | none => some (inner ++ [(key, .tables [[]])])
    | some (.tables elements) => some (inner.replace key (.tables (elements ++ [[]])))
    | some _ => none) path .headed entries

end Entries

end MacroAsm.Toml
