import MacroAsm.Node

/-!
# Why lowering fails

A macro instruction has a fixed number of operands, and lowering one may need temporaries that are
no longer there.  Either failure names the instruction's origin.
-/

namespace MacroAsm

/-- How many operands an instruction takes. -/
inductive Arity where
  | exactly (count : Nat)
  | either (fewer more : Nat)
deriving DecidableEq, Repr

namespace Arity

/-- Whether a number of operands is right. -/
def accepts : Arity → Nat → Bool
  | exactly n, count => count == n
  | either a b, count => count == a || count == b

/-- The text of an arity: `n`, or `a or b`. -/
def text : Arity → String
  | exactly n => n.repr
  | either a b => a.repr ++ " or " ++ b.repr

/-- The noun that follows the text of an arity. -/
def noun : Arity → String
  | exactly 1 => "operand"
  | _ => "operands"

end Arity

/-- Why an instruction cannot be lowered. -/
inductive LowerError where
  | malformed (opcode : Opcode) (expected : Arity) (found : Nat) (origin : Origin)
  | exhausted (origin : Origin)
deriving DecidableEq, Repr

namespace LowerError

/-- The origin of the instruction that cannot be lowered. -/
def origin : LowerError → Origin
  | malformed _ _ _ o => o
  | exhausted o => o

/-- The wording of an error: where, then what. -/
def message : LowerError → String
  | malformed opcode expected found origin =>
    origin.text ++ ": malformed `" ++ opcode.mnemonic ++ "`: expected " ++ expected.text ++ " " ++
      expected.noun ++ ", found " ++ found.repr
  | exhausted origin => origin.text ++ ": out of temporary ids"

end LowerError

end MacroAsm
