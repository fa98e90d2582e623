import MacroAsm.Supply

/-!
# Expansions of macro instructions

For each family of macro instructions, the sequence of plain instructions that replaces one of its
members.  Every instruction of a sequence, and every temporary taken for it, has the origin of the
instruction it replaces.  The operand count is checked before anything is taken.

## Main definitions

* `Instruction.expandNot` — complement as exclusive or with `-1`.
* `Instruction.expandMulOverflow` — multiply, and branch when the product leaves 32 bits.
* `Instruction.expandBitTest` — test bits by masking and comparing with zero.
-/

namespace MacroAsm

namespace Opcode

/-- The mask that a bit test of a width applies; narrower values are masked as 32-bit integers. -/
def maskOf : Width → Opcode
  | .byte => .and .int
  | .int => .and .int
  | .ptr => .and .ptr
  | .quad => .and .quad

/-- The comparison with zero that answers a condition on bits. -/
def comparisonOf : TestCondition → Comparison
  | .sign => .less
  | .zero => .equal
  | .nonZero => .notEqual

/-- The opcode that answers a bit test once its bits are masked. -/
def zeroCompareOf (form : Form) (width : Width) (condition : TestCondition) : Opcode :=
  .compare form width (comparisonOf condition)

end Opcode

namespace Instruction

/-- The failure of an instruction whose operand count is not `expected`. -/
def malformed (i : Instruction) (expected : Arity) : LowerError :=
  .malformed i.opcode expected i.operands.length i.origin

/-- An instruction that takes the place of `i`. -/
def replace (i : Instruction) (opcode : Opcode) (operands : List Operand) : Instruction :=
  ⟨opcode, operands, i.origin⟩

/-- `not x` becomes `xor -1, x`. -/
def expandNot (i : Instruction) (width : Width) : LowerM (List Instruction) :=
  match i.operands with
  | [x] => return [i.replace (.xor width) [.immediate (-1), x]]
  | _ => throw (i.malformed (.exactly 1))

/-- `bmulio a, b, target` becomes a long multiplication into `b` and a comparison of the product's
upper word with the sign of its lower word; they differ exactly when the product leaves 32 bits. -/
def expandMulOverflow (i : Instruction) : LowerM (List Instruction) :=
  match i.operands with
  | [a, b, target] => do
    let upper ← fresh .general i.origin
    let sign ← fresh .general i.origin
    return [
      i.replace .signedMulLong [a, b, b],
      i.replace (.rightShift .ptr) [b, .immediate 32, .temporary upper],
      i.replace (.rightShift .int) [b, .immediate 31, .temporary sign],
      i.replace .zeroExtendIntToPtr [b, b],
      i.replace (.compare .branch .int .notEqual) [.temporary upper, .temporary sign, target]]
  | _ => throw (i.malformed (.exactly 3))

/-- A bit test of one value compares it with zero, and a bit test of two compares their masked bits
with zero.  Masking with `-1` is left out; the first operand is looked at first. -/
def expandBitTest (i : Instruction) (form : Form) (width : Width) (condition : TestCondition) :
    LowerM (List Instruction) :=
  let compare (value target : Operand) : Instruction :=
    i.replace (.zeroCompareOf form width condition) [value, .immediate 0, target]
  match i.operands with
  | [value, target] => return [compare value target]
  | [left, right, target] =>
    if left.isImmediate (-1) then
      return [compare right target]
    else if right.isImmediate (-1) then
      return [compare left target]
    else do
      let masked ← fresh .general i.origin
      return [
        i.replace (.maskOf width) [left, right, .temporary masked],
        compare (.temporary masked) target]
  | _ => throw (i.malformed (.either 2 3))

end Instruction

end MacroAsm
