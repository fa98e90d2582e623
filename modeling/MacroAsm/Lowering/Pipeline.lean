import MacroAsm.Lowering.Expansion

/-!
# Passes and pipelines

A pass replaces one family of macro instructions and keeps every other node.  A pipeline runs passes
one after the other, each over what the one before it left.  Any order and any repetition is
allowed, and a pipeline without passes changes nothing.

## Main definitions

* `Pass` — the passes, with their names and descriptions.
* `Pass.handles` — the opcodes that a pass replaces.
* `Pass.expand` — what a pass puts in the place of an instruction.
* `Pass.run` — a pass over a list of nodes.
* `Pipeline` — passes in the order in which they run.
* `Pipeline.run` — the passes over a list of nodes.
* `Node.residual?` — the first instruction that some pass would still replace.
-/

namespace MacroAsm

/-! ## Passes -/

/-- A family of macro instructions to be replaced. -/
inductive Pass where
  | not
  | mulOverflow
  | bitTest
deriving DecidableEq, Repr

namespace Pass

/-- All passes, in the order in which they run by default. -/
def all : List Pass := [not, mulOverflow, bitTest]

/-- The name of a pass in settings and on the command line. -/
def name : Pass → String
  | not => "not"
  | mulOverflow => "mul-overflow"
  | bitTest => "bit-test"

/-- The pass of a name. -/
def ofName? (name : String) : Option Pass :=
  all.find? (·.name == name)

/-- What a pass does, in one line. -/
def description : Pass → String
  | not => "noti/notp -> xor with -1"
  | mulOverflow => "bmulio -> smulli + shifts + bineq"
  | bitTest => "bt*/t* -> and + compare against zero"

/-- The opcodes that a pass replaces. -/
def handles : Pass → Opcode → Bool
  | not, .not _ => true
  | mulOverflow, .branchMulOverflow => true
  | bitTest, .bitTest _ _ _ => true
  | _, _ => false

/-- What a pass puts in the place of an instruction; one that it does not handle stays. -/
def expand (p : Pass) (i : Instruction) : LowerM (List Instruction) :=
  match p, i.opcode with
  | not, .not width => i.expandNot width
  | mulOverflow, .branchMulOverflow => i.expandMulOverflow
  | bitTest, .bitTest form width condition => i.expandBitTest form width condition
  | _, _ => return [i]

/-- What a pass puts in the place of a node. -/
def expandNode (p : Pass) : Node → LowerM (List Node)
  | .instruction i => return (← p.expand i).map .instruction
  | node => return [node]

/-- A pass over a list of nodes, in order; the first failure ends it. -/
def run (p : Pass) : List Node → LowerM (List Node)
  | [] => return []
  | node :: nodes => do
    let expanded ← p.expandNode node
    let rest ← p.run nodes
    return expanded ++ rest

@[simp] theorem ofName?_name (p : Pass) : ofName? p.name = some p := by
  cases p <;> decide

/-- An instruction that a pass does not handle stays as it is. -/
theorem expand_of_not_handles {p : Pass} {i : Instruction} (h : p.handles i.opcode = false) :
    p.expand i = pure [i] := by
  unfold expand
  split <;> simp_all [handles]

end Pass

/-! ## Pipelines -/

/-- Passes in the order in which they run. -/
abbrev Pipeline := List Pass

namespace Pipeline

/-- The pipeline that runs every pass once. -/
def default : Pipeline := Pass.all

/-- The passes over a list of nodes, in order; the first failure ends the run. -/
def run : Pipeline → List Node → LowerM (List Node)
  | [], nodes => return nodes
  | pass :: passes, nodes => do
    let lowered ← pass.run nodes
    run passes lowered

end Pipeline

/-- An instruction that some pass replaces. -/
def Instruction.isMacro (i : Instruction) : Bool :=
  Pass.all.any (·.handles i.opcode)

/-- The first instruction of a listing that some pass would replace. -/
def Node.residual? (nodes : List Node) : Option Instruction :=
  (nodes.filterMap Node.instruction?).find? Instruction.isMacro

@[simp] theorem Node.residual?_nil : Node.residual? [] = none := rfl

end MacroAsm
