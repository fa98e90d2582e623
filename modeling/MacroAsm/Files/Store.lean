import MacroAsm.Files.Path

/-!
# File stores

A store holds directories and files, and answers the questions of a program that works with files:
read, write, make directories.  Relative paths start at the store's working directory.

A place is found name by name from the root, and every name but the last has to be a directory.  A
slash at the end of a path asks for a directory.

## Main definitions

* `Fault` — why an operation fails.
* `Store` — directories and files by location.
* `Store.read`, `Store.readText`, `Store.write`, `Store.createDirectories` — the operations.
* `Store.changedFiles` — what differs between two stores.
-/

namespace MacroAsm.Files

/-- Why an operation on files fails. -/
inductive Fault where
  | notFound
  | alreadyExists
  | notDirectory
  | isDirectory
  | nameTooLong
  | nulInPath
  | notText
deriving DecidableEq, Repr

/-- The wording of a fault. -/
def Fault.message : Fault → String
  | notFound => "No such file or directory (os error 2)"
  | alreadyExists => "File exists (os error 17)"
  | notDirectory => "Not a directory (os error 20)"
  | isDirectory => "Is a directory (os error 21)"
  | nameTooLong => "File name too long (os error 36)"
  | nulInPath => "file name contained an unexpected NUL byte"
  | notText => "stream did not contain valid UTF-8"

/-- The names on the way from the root to a place, the root's first. -/
abbrev Location := List String

/-- What is at a location. -/
inductive Entry where
  | directory
  | file (content : ByteArray)

instance : DecidableEq Entry
  | .directory, .directory => .isTrue rfl
  | .directory, .file _ => .isFalse nofun
  | .file _, .directory => .isFalse nofun
  | .file a, .file b =>
    match ByteArray.instDecidableEq a b with
    | .isTrue h => .isTrue (congrArg Entry.file h)
    | .isFalse h => .isFalse fun heq => h (Entry.file.inj heq)

/-- Directories and files, and the directory where relative paths start. -/
structure Store where
  entries : List (Location × Entry)
  workingDirectory : Location

namespace Store

/-- The longest name that a directory can hold, in bytes. -/
def maxNameLength : Nat := 255

/-- A name that no directory can hold. -/
def isTooLong (name : String) : Bool :=
  maxNameLength < name.utf8ByteSize

/-- The store that has a working directory and its parents, and no files. -/
def ofDirectory (l : Location) : Store :=
  ⟨(List.range l.length).map fun depth => (l.take (depth + 1), .directory), l⟩

/-- What is at a location; the root is always a directory. -/
def get? (s : Store) (l : Location) : Option Entry :=
  if l.isEmpty then some .directory else s.entries.lookup l

/-- Whether a directory is at a location. -/
def isDirectoryAt (s : Store) (l : Location) : Bool :=
  s.get? l == some .directory

/-- The store with an entry at a location, in the place of any that was there. -/
def put (s : Store) (l : Location) (e : Entry) : Store :=
  { s with entries := (l, e) :: s.entries.filter (·.1 != l) }

/-- The location that a list of names leads to.  Every place on the way has to be a directory; what
is at the end is not looked at. -/
def follow (s : Store) : Location → List String → Except Fault Location
  | l, [] => .ok l
  | l, name :: names =>
    match s.get? l with
    | none => .error .notFound
    | some (.file _) => .error .notDirectory
    | some .directory =>
      if name = "." then s.follow l names
      else if name = ".." then s.follow l.dropLast names
      else if isTooLong name then .error .nameTooLong
      else s.follow (l ++ [name]) names

/-- The location where a path starts. -/
def base (s : Store) (p : Path) : Location :=
  if p.isAbsolute then [] else s.workingDirectory

/-- The longest path that can be followed, in bytes. -/
def maxPathLength : Nat := 4095

/-- Refuses the paths that lead nowhere in any store: the empty path, one with a NUL in it, and one
that is too long. -/
def accept (p : Path) : Except Fault Unit :=
  if p.text.toList.contains '\x00' then .error .nulInPath
  else if p.text.isEmpty then .error .notFound
  else if maxPathLength < p.text.utf8ByteSize then .error .nameTooLong
  else .ok ()

/-- What a path leads to. -/
def find (s : Store) (p : Path) : Except Fault Entry := do
  accept p
  let names := if p.endsInSlash then p.names ++ ["."] else p.names
  match s.get? (← s.follow (s.base p) names) with
  | none => throw .notFound
  | some e => return e

/-- Whether a path leads to anything. -/
def contains (s : Store) (p : Path) : Bool :=
  (s.find p).isOk

/-- Whether a path leads to a directory. -/
def isDirectory (s : Store) (p : Path) : Bool :=
  match s.find p with
  | .ok .directory => true
  | _ => false

/-- The bytes of a file. -/
def read (s : Store) (p : Path) : Except Fault ByteArray := do
  match ← s.find p with
  | .directory => throw .isDirectory
  | .file content => return content

/-- The text of a file. -/
def readText (s : Store) (p : Path) : Except Fault String := do
  match String.fromUTF8? (← s.read p) with
  | some text => return text
  | none => throw .notText

/-- The location for a new entry: its parent directory is there and its name is a name.  A path
whose last part is not a name leads to a directory that is there already, and has no such
location. -/
def newLocation? (s : Store) (p : Path) : Except Fault (Option Location) := do
  accept p
  match p.names.getLast? with
  | none => return none
  | some name =>
    let parent ← s.follow (s.base p) p.names.dropLast
    match s.get? parent with
    | none => throw .notFound
    | some (.file _) => throw .notDirectory
    | some .directory =>
      if name = "." ∨ name = ".." then return none
      return some (parent ++ [name])

/-- The store after a file is written; a file that is there is replaced. -/
def write (s : Store) (p : Path) (content : ByteArray) : Except Fault Store := do
  match ← s.newLocation? p with
  | none => throw .isDirectory
  | some l =>
    if p.endsInSlash ∨ s.isDirectoryAt l then throw .isDirectory
    if l.any isTooLong then throw .nameTooLong
    return s.put l (.file content)

/-- The store after a text is written to a file. -/
def writeText (s : Store) (p : Path) (text : String) : Except Fault Store :=
  s.write p text.toUTF8

/-- The store after a directory is made in a directory that is there. -/
def createDirectory (s : Store) (p : Path) : Except Fault Store := do
  match ← s.newLocation? p with
  | none => throw .alreadyExists
  | some l =>
    if (s.get? l).isSome then throw .alreadyExists
    if l.any isTooLong then throw .nameTooLong
    return s.put l .directory

/-- The store after a list of directories, the outermost last, is made; one that is there already is
fine. -/
def createChain (s : Store) : List Path → Except Fault Store
  | [] => .ok s
  | p :: parents =>
    match s.createDirectory p with
    | .ok made => .ok made
    | .error .notFound => do
      let outer ← s.createChain parents
      match outer.createDirectory p with
      | .ok made => .ok made
      | .error fault => if outer.isDirectory p then .ok outer else .error fault
    | .error fault => if s.isDirectory p then .ok s else .error fault

/-- The store after a directory and all its missing parents are made. -/
def createDirectories (s : Store) (p : Path) : Except Fault Store :=
  s.createChain p.ancestors

/-- The files below a directory that `s` has and `before` has not, or has with another content, by
their names below the directory. -/
def changedFiles (before s : Store) (directory : Location) : List (Location × ByteArray) :=
  s.entries.filterMap fun (l, e) =>
    match e with
    | .directory => none
    | .file content =>
      if directory.isPrefixOf l ∧ before.get? l ≠ some (.file content) then
        some (l.drop directory.length, content)
      else
        none

/-- The directories that `s` has and `before` has not. -/
def newDirectories (before s : Store) : List Location :=
  s.entries.filterMap fun (l, e) =>
    if e = .directory ∧ !before.isDirectoryAt l then some l else none

/-! ## What the operations do to the entries -/

private theorem lookup_filter_ne {l l' : Location} (h : l' ≠ l)
    (entries : List (Location × Entry)) :
    (entries.filter (·.1 != l)).lookup l' = entries.lookup l' := by
  induction entries with
  | nil => rfl
  | cons entry entries ih =>
    rcases entry with ⟨k, e⟩
    by_cases hk : k = l
    · subst hk
      have hne : (l' == k) = false := by simpa using h
      simp [List.lookup_cons, hne, ih]
    · simp [List.lookup_cons, hk, ih]

theorem get?_put_self (s : Store) {l : Location} (e : Entry) (h : l ≠ []) :
    (s.put l e).get? l = some e := by
  simp [get?, put, h]

theorem get?_put_of_ne (s : Store) {l l' : Location} (e : Entry) (h : l' ≠ l) :
    (s.put l e).get? l' = s.get? l' := by
  have hne : (l' == l) = false := by simpa using h
  simp [get?, put, List.lookup_cons, hne, lookup_filter_ne h]

end Store

end MacroAsm.Files
