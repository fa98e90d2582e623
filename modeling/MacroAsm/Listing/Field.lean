import MacroAsm.Operand
import MacroAsm.Text.Layout

/-!
# Operand fields

The text after a mnemonic is a list of fields separated by commas.  A comma inside brackets does not
separate, so an address such as `8[a, b]` is one field.  A field's first character, or a bracket
anywhere in it, decides which kind of operand it is.

A line that cannot be read has a fault, and the error that a reader reports is the fault together
with the origin of the line.

## Main definitions

* `Fault`, `ReadError` — what can be wrong with a line.
* `splitFields` — the fields of an operand text.
* `readInteger?` — the value of an integer literal.
* `readTemporary?` — class and number of a temporary's name.
* `readOperand` — the operand that a field stands for.
-/

namespace MacroAsm.Listing

/-! ## Faults -/

/-- Why a line cannot be read. -/
inductive Fault where
  | emptyOperand
  | unbalancedBrackets (text : String)
  | badInteger (token : String)
  | badTemporary (token : String)
  | emptyLabel
deriving DecidableEq, Repr

/-- The wording of a fault. -/
def Fault.message : Fault → String
  | emptyOperand => "empty operand"
  | unbalancedBrackets text => "unbalanced brackets in `" ++ text ++ "`"
  | badInteger token => "integer literal `" ++ token ++ "` out of range"
  | badTemporary token => "bad temporary `" ++ token ++ "`"
  | emptyLabel => "empty label"

/-- A line that cannot be read. -/
structure ReadError where
  fault : Fault
  origin : Origin
deriving DecidableEq, Repr

/-- The wording of an error: where, then what. -/
def ReadError.message (e : ReadError) : String :=
  e.origin.text ++ ": " ++ e.fault.message

/-! ## Fields -/

/-- A bracket that opens a group. -/
def isOpener (c : Char) : Bool :=
  c == '[' || c == '('

/-- A bracket that closes a group, whichever kind opened it. -/
def isCloser (c : Char) : Bool :=
  c == ']' || c == ')'

/-- Puts a character in front of the first piece. -/
def consFirst (c : Char) : List (List Char) → List (List Char)
  | [] => [[c]]
  | piece :: pieces => (c :: piece) :: pieces

/-- Cuts a text at the commas outside all brackets, starting at bracket depth `depth`.  There is no
result when a bracket closes nothing or is never closed. -/
def cutAtCommas : (depth : Nat) → List Char → Option (List (List Char))
  | 0, [] => some [[]]
  | _ + 1, [] => none
  | depth, c :: cs =>
    if isOpener c then
      (cutAtCommas (depth + 1) cs).map (consFirst c)
    else if isCloser c then
      match depth with
      | 0 => none
      | outer + 1 => (cutAtCommas outer cs).map (consFirst c)
    else if c == ',' && depth == 0 then
      (cutAtCommas depth cs).map ([] :: ·)
    else
      (cutAtCommas depth cs).map (consFirst c)

/-- The fields of an operand text, trimmed.  Unbalanced brackets are found before empty fields. -/
def splitFields (text : List Char) : Except Fault (List (List Char)) :=
  if text.isEmpty then
    .ok []
  else
    match cutAtCommas 0 text with
    | none => .error (.unbalancedBrackets (String.ofList text))
    | some pieces =>
      let fields := pieces.map Text.trim
      if fields.any List.isEmpty then .error .emptyOperand else .ok fields

/-- The value of an integer literal: an optional `-`, then decimal digits whose signed value fits 64
bits, or `0x` and hexadecimal digits whose magnitude is below `2 ^ 64` and whose signed value is
taken modulo `2 ^ 64`. -/
def readInteger? (token : List Char) : Option Int64 :=
  let negative := token.head? == some '-'
  let magnitude := if negative then token.tail else token
  let signed (m : Nat) : Int := if negative then -m else m
  match magnitude with
  | '0' :: 'x' :: digits => do
    let m ← Text.hexadecimal? digits
    if m < UInt64.size then some (Int64.ofInt (signed m)) else none
  | digits => do
    let m ← Text.decimal? digits
    if Int64.minValue.toInt ≤ signed m ∧ signed m ≤ Int64.maxValue.toInt then
      some (Int64.ofInt (signed m))
    else none

/-- The class and number of a temporary's name: `%t` or `%f` and decimal digits below `2 ^ 32`. -/
def readTemporary? : List Char → Option (RegisterClass × UInt32)
  | '%' :: 't' :: digits => number? digits |>.map (.general, ·)
  | '%' :: 'f' :: digits => number? digits |>.map (.floating, ·)
  | _ => none
where
  /-- A temporary's number. -/
  number? (digits : List Char) : Option UInt32 := do
    let n ← Text.decimal? digits
    if n < UInt32.size then some (UInt32.ofNat n) else none

/-- A field that starts like an integer. -/
def startsInteger (field : List Char) : Bool :=
  field.head?.any fun c => c == '-' || c.isDigit

/-- A field that starts like a label. -/
def startsLabel (field : List Char) : Bool :=
  field.head?.any fun c => c == '.' || c == '_'

/-- The operand that a field stands for; a temporary is introduced at `origin`. -/
def readOperand (origin : Origin) (field : List Char) : Except Fault Operand :=
  if field.head? == some '%' then
    match readTemporary? field with
    | some (bank, id) => .ok (.temporary ⟨id, bank, origin⟩)
    | none => .error (.badTemporary (String.ofList field))
  else if field.any fun c => isOpener c || isCloser c then
    .ok (.address (String.ofList field))
  else if startsInteger field then
    match readInteger? field with
    | some value => .ok (.immediate value)
    | none => .error (.badInteger (String.ofList field))
  else if startsLabel field then
    .ok (.label (String.ofList field))
  else
    .ok (.register (String.ofList field))

@[simp] theorem splitFields_nil : splitFields [] = .ok [] := rfl

end MacroAsm.Listing
