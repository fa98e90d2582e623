import MacroAsm.Opcode.Mnemonic
import MacroAsm.Operand

/-!
# Nodes

A listing is a list of nodes, one for each line that is not blank.  A node knows its origin and how
it is written.

## Main definitions

* `Instruction` — an opcode and its operands.
* `Node` — an instruction, a label, a directive or a comment.
* `Node.print` — the text of a list of nodes.
* `Node.maxTemporary` — the highest temporary number in use.
-/

namespace MacroAsm

/-- An opcode applied to operands. -/
structure Instruction where
  opcode : Opcode
  operands : List Operand
  origin : Origin
deriving DecidableEq, Repr

namespace Instruction

/-- The written form: the mnemonic, a space, and the operands separated by commas. -/
def text (i : Instruction) : String :=
  match i.operands with
  | [] => i.opcode.mnemonic
  | operands => i.opcode.mnemonic ++ " " ++ ", ".intercalate (operands.map Operand.text)

/-- The temporaries among the operands, in order. -/
def temporaries (i : Instruction) : List Temporary :=
  i.operands.filterMap Operand.temporary?

end Instruction

/-- What one line of a listing holds. -/
inductive Node where
  | instruction (i : Instruction)
  | label (name : String) (origin : Origin)
  | directive (text : String) (origin : Origin)
  | comment (text : String) (origin : Origin)
deriving DecidableEq, Repr

namespace Node

/-- The place a node was read from. -/
def origin : Node → Origin
  | instruction i => i.origin
  | label _ o => o
  | directive _ o => o
  | comment _ o => o

/-- The instruction that a node is. -/
def instruction? : Node → Option Instruction
  | instruction i => some i
  | _ => none

/-- The line of a node: instructions are indented, labels end in a colon, comments start with a
number sign. -/
def text : Node → String
  | instruction i => "    " ++ i.text
  | label name _ => name ++ ":"
  | directive text _ => text
  | comment text _ => "# " ++ text

/-- The text of a listing, one line for each node. -/
def print (nodes : List Node) : String :=
  String.join (nodes.map fun node => node.text ++ "\n")

/-- The temporaries of a listing, in order of occurrence. -/
def temporaries (nodes : List Node) : List Temporary :=
  (nodes.filterMap instruction?).flatMap Instruction.temporaries

/-- The highest number of a temporary in a listing, if it has any. -/
def maxTemporary (nodes : List Node) : Option UInt32 :=
  Temporary.highestId (temporaries nodes)

@[simp] theorem print_nil : print [] = "" := rfl

@[simp] theorem temporaries_nil : temporaries [] = [] := rfl

@[simp] theorem maxTemporary_nil : maxTemporary [] = none := rfl

theorem temporaries_append (as bs : List Node) :
    temporaries (as ++ bs) = temporaries as ++ temporaries bs := by
  simp [temporaries]

end Node

end MacroAsm
