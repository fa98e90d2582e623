import MacroAsm.Origin
import MacroAsm.Text.Numeral

/-!
# Operands

What an instruction works on: machine registers, temporaries that have no machine register yet,
64-bit immediates, labels and memory addresses.  Registers, labels and addresses are kept as they
are written.
-/

namespace MacroAsm

/-- The register file that a temporary will live in. -/
inductive RegisterClass where
  | general
  | floating
deriving DecidableEq, Repr

namespace RegisterClass

/-- The letter of the class in a temporary's name. -/
def letter : RegisterClass → Char
  | general => 't'
  | floating => 'f'

end RegisterClass

/-- A value without a machine register, known by class and number.  It remembers where it was
introduced. -/
structure Temporary where
  id : UInt32
  bank : RegisterClass
  origin : Origin
deriving DecidableEq, Repr

namespace Temporary

/-- The name of a temporary: `%t` or `%f` and its number. -/
def text (t : Temporary) : String :=
  "%".push t.bank.letter ++ t.id.toNat.repr

/-- The highest number among temporaries of either class, if there are any. -/
def highestId : List Temporary → Option UInt32
  | [] => none
  | t :: ts =>
    match highestId ts with
    | none => some t.id
    | some id => some (if id ≤ t.id then t.id else id)

@[simp] theorem highestId_nil : highestId [] = none := rfl

end Temporary

/-- What an instruction works on. -/
inductive Operand where
  | register (name : String)
  | temporary (t : Temporary)
  | immediate (value : Int64)
  | label (name : String)
  | address (text : String)
deriving DecidableEq, Repr

namespace Operand

/-- The written form of an operand. -/
def text : Operand → String
  | register name => name
  | temporary t => t.text
  | immediate value => Text.intText value.toInt
  | label name => name
  | address text => text

/-- The value of an immediate. -/
def immediate? : Operand → Option Int64
  | immediate value => some value
  | _ => none

/-- Whether the operand is the immediate `value`. -/
def isImmediate (value : Int64) (operand : Operand) : Bool :=
  operand.immediate? == some value

/-- The temporary that an operand is. -/
def temporary? : Operand → Option Temporary
  | temporary t => some t
  | _ => none

@[simp] theorem isImmediate_immediate (v w : Int64) :
    isImmediate v (immediate w) = true ↔ w = v := by
  simp [isImmediate, immediate?]

end Operand

end MacroAsm
