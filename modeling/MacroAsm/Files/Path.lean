/-!
# Paths

A path is text: names separated by slashes, `.` for a directory itself and `..` for its parent.
Repeated slashes, slashes at the end and dots after the first name do not count as names of their
own, but they stay in the text where an operation does not have to cut it.

## Main definitions

* `Path.pieces` — the text cut at every slash.
* `Path.join` — a path below another.
* `Path.parent?`, `Path.fileName?` — the two parts of a path.
* `Path.withFileName` — a path with its last name changed.
* `Path.ancestors` — a path and its parents.
-/

namespace MacroAsm

/-- A path, as it is written. -/
structure Path where
  text : String
deriving DecidableEq, Repr

namespace Path

/-- Cuts a text at every slash. -/
def cutAtSlashes : List Char → List (List Char)
  | [] => [[]]
  | c :: cs =>
    match c == '/', cutAtSlashes cs with
    | true, pieces => [] :: pieces
    | false, [] => [[c]]
    | false, piece :: pieces => (c :: piece) :: pieces

/-- The text of a path cut at every slash. -/
def pieces (p : Path) : List String :=
  (cutAtSlashes p.text.toList).map String.ofList

/-- The path of pieces that `pieces` may have given; a single empty piece was a root. -/
def ofPieces (absolute : Bool) (pieces : List String) : Path :=
  if absolute ∧ pieces = [""] then ⟨"/"⟩ else ⟨"/".intercalate pieces⟩

/-- A path that starts at the root. -/
def isAbsolute (p : Path) : Bool :=
  p.text.toList.head? == some '/'

/-- A path that ends in a slash. -/
def endsInSlash (p : Path) : Bool :=
  p.text.toList.getLast? == some '/'

/-- Leaves out the pieces at the end that are no names, but never the first piece. -/
def dropTrailing (pieces : List String) : List String :=
  match pieces with
  | [] => []
  | first :: rest =>
    first :: (rest.reverse.dropWhile fun piece => piece == "" || piece == ".").reverse

/-- The last name of a path, unless it is a dot, two dots or the root. -/
def fileName? (p : Path) : Option String :=
  match (dropTrailing p.pieces).getLast? with
  | none => none
  | some name => if name == "" || name == "." || name == ".." then none else some name

/-- The path without its last name; the root and the empty path have no parent. -/
def parent? (p : Path) : Option Path :=
  match dropTrailing p.pieces with
  | [] => none
  | [first] => if first == "" then none else some ⟨""⟩
  | pieces => some (ofPieces p.isAbsolute (dropTrailing pieces.dropLast))

/-- The path `q` as seen from `p`; a slash is added between them unless `p` is empty or ends in one.
An absolute `q` stands for itself. -/
def join (p q : Path) : Path :=
  if q.isAbsolute then q
  else if p.text.isEmpty || p.endsInSlash then ⟨p.text ++ q.text⟩
  else ⟨p.text ++ "/" ++ q.text⟩

/-- The path with its last name changed, or with the name added when it has no last name. -/
def withFileName (p : Path) (name : String) : Path :=
  let directory := if p.fileName?.isSome then p.parent?.getD p else p
  directory.join ⟨name⟩

/-- The names of a path, dots included. -/
def names (p : Path) : List String :=
  p.pieces.filter (· != "")

/-- The path and its parents, the path first; the empty path and the root are left out. -/
def ancestors (p : Path) : List Path :=
  go p.pieces.length p
where
  /-- The first `bound` of them. -/
  go : Nat → Path → List Path
  | 0, _ => []
  | bound + 1, p =>
    match p.parent? with
    | none => []
    | some parent => p :: go bound parent

end Path

end MacroAsm
