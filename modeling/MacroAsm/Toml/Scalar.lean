import MacroAsm.Text.Numeral
import MacroAsm.Toml.Value

/-!
# Strings, numbers and truth values of TOML

The leaves of a document.  Each reader takes the text from where its leaf starts and gives the leaf
and the rest of the text.

## Main definitions

* `readBasicString`, `readLiteralString` — the two kinds of strings, after their opening quote.
* `integer?`, `float?` — numbers, as whole words.
* `readWord` — a value that is written without quotes.
-/

namespace MacroAsm.Toml

/-- A character that may stand in a comment or a string: anything but the controls, of which the tab
is allowed. -/
def isPlain (c : Char) : Bool :=
  c == '\t' || (' ' ≤ c && c != '\x7f')

/-- A space or a tab. -/
def isSpace (c : Char) : Bool :=
  c == ' ' || c == '\t'

/-- The text without leading spaces and tabs. -/
def skipSpaces (cs : List Char) : List Char :=
  cs.dropWhile isSpace

/-! ## Strings -/

/-- The character that an escape of exactly `digits.length` hexadecimal digits stands for. -/
def escapedChar? (digits : List Char) : Option Char := do
  let n ← Text.hexadecimal? digits
  if n.isValidChar then some (Char.ofNat n) else none

/-- A string in double quotes, with escapes, after the opening quote. -/
def readBasicString : List Char → Option (List Char × List Char)
  | '"' :: rest => some ([], rest)
  | '\\' :: 'b' :: rest => (readBasicString rest).map (add '\x08')
  | '\\' :: 't' :: rest => (readBasicString rest).map (add '\t')
  | '\\' :: 'n' :: rest => (readBasicString rest).map (add '\n')
  | '\\' :: 'f' :: rest => (readBasicString rest).map (add '\x0c')
  | '\\' :: 'r' :: rest => (readBasicString rest).map (add '\r')
  | '\\' :: 'e' :: rest => (readBasicString rest).map (add '\x1b')
  | '\\' :: '"' :: rest => (readBasicString rest).map (add '"')
  | '\\' :: '\\' :: rest => (readBasicString rest).map (add '\\')
  | '\\' :: 'x' :: a :: b :: rest => do
    let c ← escapedChar? [a, b]
    (readBasicString rest).map (add c)
  | '\\' :: 'u' :: a :: b :: c :: d :: rest => do
    let c ← escapedChar? [a, b, c, d]
    (readBasicString rest).map (add c)
  | '\\' :: 'U' :: a :: b :: c :: d :: e :: f :: g :: h :: rest => do
    let c ← escapedChar? [a, b, c, d, e, f, g, h]
    (readBasicString rest).map (add c)
  | c :: rest => if c != '\\' && isPlain c then (readBasicString rest).map (add c) else none
  | [] => none
where
  /-- Puts a character in front of what was read. -/
  add (c : Char) (result : List Char × List Char) : List Char × List Char :=
    (c :: result.1, result.2)

/-- A string in single quotes, taken as it is, after the opening quote. -/
def readLiteralString : List Char → Option (List Char × List Char)
  | '\'' :: rest => some ([], rest)
  | c :: rest =>
    if isPlain c then (readLiteralString rest).map fun result => (c :: result.1, result.2) else none
  | [] => none

/-! ## Numbers -/

/-- The digits of a number in which single underscores may separate digits. -/
def digitRun (isDigit : Char → Bool) : List Char → Option (List Char)
  | [] => none
  | [c] => if isDigit c then some [c] else none
  | c :: '_' :: d :: cs =>
    if isDigit c && isDigit d then (digitRun isDigit (d :: cs)).map (c :: ·) else none
  | c :: cs => if isDigit c then (digitRun isDigit cs).map (c :: ·) else none

/-- The digits of a decimal number, which has no leading zero. -/
def decimalRun (cs : List Char) : Option (List Char) := do
  let digits ← digitRun Char.isDigit cs
  if digits.head? = some '0' ∧ digits.length ≠ 1 then none else some digits

/-- A word without its sign, and whether the sign was a minus. -/
def splitSign : List Char → Bool × List Char
  | '-' :: cs => (true, cs)
  | '+' :: cs => (false, cs)
  | cs => (false, cs)

/-- The value of digits in a base. -/
def valueOf (base : Nat) (digits : List Char) : Nat :=
  digits.foldl (fun value c => base * value + Text.hexDigitValue c) 0

/-- An integer in a base with a prefix letter; it has no sign. -/
def basedInteger? (base : Nat) (isDigit : Char → Bool) (cs : List Char) : Option Int :=
  (digitRun isDigit cs).map fun digits => valueOf base digits

/-- The parts of a word between its underscores. -/
def cutAtUnderscores : List Char → List (List Char)
  | [] => [[]]
  | c :: cs =>
    match c == '_', cutAtUnderscores cs with
    | true, parts => [] :: parts
    | false, [] => [[c]]
    | false, part :: parts => (c :: part) :: parts

/-- Whether every underscore between the parts of a word stands between digits of some base. -/
def isSeparated (parts : List (List Char)) : Bool :=
  parts.tail.all (·.head?.any Text.isHexDigit) &&
    parts.dropLast.all (·.getLast?.any Text.isHexDigit)

/-- A word with the outer shape of a decimal number with underscores.  Only its start, up to the
first underscore, and the neighbours of its underscores are looked at; besides, it has no space and
no mark of a floating point number. -/
def isLooseDecimal (cs : List Char) : Bool :=
  match cutAtUnderscores cs with
  | first :: part :: parts =>
    first.all Char.isDigit && first.head?.any (· != '0') && isSeparated (first :: part :: parts) &&
      !cs.any fun c => c == ' ' || c == '.' || c == 'e' || c == 'E'
  | _ => false

/-- An integer of any size: decimal with an optional sign, or hexadecimal, octal or binary.  It has
no value when the digits after the letter of its base are missing, or when it only has the outer
shape of a decimal number. -/
def integer? (word : List Char) : Option (Option Int) :=
  match word with
  | ['0', 'x'] | ['0', 'o'] | ['0', 'b'] => some none
  | '0' :: 'x' :: cs => (basedInteger? 16 Text.isHexDigit cs).map some
  | '0' :: 'o' :: cs => (basedInteger? 8 (fun c => '0' ≤ c && c ≤ '7') cs).map some
  | '0' :: 'b' :: cs => (basedInteger? 2 (fun c => c == '0' || c == '1') cs).map some
  | _ =>
    let (negative, cs) := splitSign word
    match decimalRun cs with
    | some digits =>
      let value : Int := valueOf 10 digits
      some (some (if negative then -value else value))
    | none => if isLooseDecimal cs then some none else none

/-- Whether a decimal number `m * 10 ^ e` is too large for a double: it would round to infinity. -/
def overflowsDouble (m : Nat) (e : Int) : Bool :=
  let size := (Nat.toDigits 10 m).length + e
  let limit := Nat.pow 2 1024 - Nat.pow 2 970
  if m = 0 ∨ size < 300 then false
  else if 310 < size then true
  else if 0 ≤ e then limit ≤ m * Nat.pow 10 e.toNat
  else limit * Nat.pow 10 (-e).toNat ≤ m

/-- A floating point number: an integer part with a fraction, an exponent or both, or one of the
special values.  The answer says whether a double can hold it. -/
def float? (word : List Char) : Option Value :=
  let (_, cs) := splitSign word
  if cs = "inf".toList ∨ cs = "nan".toList then some (.float true)
  else
    let mantissa := cs.takeWhile fun c => c != 'e' && c != 'E'
    let power := cs.drop mantissa.length
    let whole := mantissa.takeWhile (· != '.')
    let part := mantissa.drop whole.length
    if power.isEmpty && part.isEmpty then none
    else do
      let exponent : Int ←
        if power.isEmpty then some 0
        else
          let (negative, digits) := splitSign power.tail
          (digitRun Char.isDigit digits).map fun ds =>
            if negative then -(valueOf 10 ds : Int) else valueOf 10 ds
      let w ← decimalRun whole
      let f ← if part.isEmpty then some [] else digitRun Char.isDigit part.tail
      return .float (!overflowsDouble (valueOf 10 (w ++ f)) (exponent - f.length))

/-! ## Words -/

/-- A character that ends a value that is written without quotes. -/
def endsWord (c : Char) : Bool :=
  c == '\r' || c == '\n' || c == '#' || c == ',' || c == '=' || c == '[' || c == ']' ||
    c == '\x7b' || c == '\x7d'

/-- A character with which a word goes on after spaces and tabs. -/
def continuesWord (c : Char) : Bool :=
  !endsWord c && !isSpace c && c != '.' && c != '"' && c != '\''

/-- A word and the text after it.  Spaces and tabs belong to the word when it goes on after them. -/
def splitWord : List Char → List Char × List Char
  | [] => ([], [])
  | c :: cs =>
    if endsWord c || isSpace c && !(cs.dropWhile isSpace).head?.any continuesWord then ([], c :: cs)
    else
      let (word, rest) := splitWord cs
      (c :: word, rest)

/-- The value that a whole word stands for. -/
def wordValue? (word : List Char) : Option Value :=
  if word = "true".toList then some (.boolean true)
  else if word = "false".toList then some (.boolean false)
  else
    match integer? word with
    | some n => some (.integer n)
    | none => float? word

/-- A value that is written without quotes. -/
def readWord (cs : List Char) : Option (Value × List Char) := do
  let (word, rest) := splitWord cs
  let value ← wordValue? word
  return (value, rest)

end MacroAsm.Toml
