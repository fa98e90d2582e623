/-!
# Opcodes

The opcodes that lowering consumes or produces, as data.  Everything else a listing may hold is
`Opcode.other` and passes through unchanged.

## Main definitions

* `Width` — the operand width an opcode works on.
* `TestCondition`, `Comparison` — what a bit test and a comparison ask.
* `Form` — whether the answer branches or is stored.
* `Opcode` — an operation of a listing.
-/

namespace MacroAsm

/-- The width of the operands: a byte, a 32-bit integer, a pointer or a 64-bit quad. -/
inductive Width where
  | byte
  | int
  | ptr
  | quad
deriving DecidableEq, Repr

/-- What a bit test asks of the tested bits: sign set, all zero, not all zero. -/
inductive TestCondition where
  | sign
  | zero
  | nonZero
deriving DecidableEq, Repr

/-- What a comparison asks of its two operands; `above` and `below` are unsigned, `greater` and
`less` signed. -/
inductive Comparison where
  | equal
  | notEqual
  | above
  | aboveOrEqual
  | below
  | belowOrEqual
  | greater
  | greaterOrEqual
  | less
  | lessOrEqual
deriving DecidableEq, Repr

/-- An answer either decides a branch or is set as a value. -/
inductive Form where
  | branch
  | set
deriving DecidableEq, Repr

/-- An operation of a listing. -/
inductive Opcode where
  | not (width : Width)
  | xor (width : Width)
  | and (width : Width)
  | rightShift (width : Width)
  | signedMulLong
  | zeroExtendIntToPtr
  | branchMulOverflow
  | bitTest (form : Form) (width : Width) (condition : TestCondition)
  | compare (form : Form) (width : Width) (comparison : Comparison)
  | other (name : String)
deriving DecidableEq, Repr

namespace Width

/-- All widths. -/
def all : List Width := [byte, int, ptr, quad]

end Width

namespace TestCondition

/-- All conditions of a bit test. -/
def all : List TestCondition := [sign, zero, nonZero]

end TestCondition

namespace Comparison

/-- All comparisons. -/
def all : List Comparison :=
  [equal, notEqual, above, aboveOrEqual, below, belowOrEqual, greater, greaterOrEqual, less,
    lessOrEqual]

end Comparison

namespace Form

/-- Both forms. -/
def all : List Form := [branch, set]

end Form

namespace Opcode

/-- An opcode that lowering does not know. -/
def isOther : Opcode → Bool
  | other _ => true
  | _ => false

@[simp] theorem isOther_other (name : String) : isOther (other name) = true := rfl

end Opcode

end MacroAsm
