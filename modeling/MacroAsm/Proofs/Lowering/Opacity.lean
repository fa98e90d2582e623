import MacroAsm.Lowering.Pipeline
import MacroAsm.Proofs.Origins

/-!
# What lowering does not look at

Lowering copies origins and names and never looks at them: it decides by opcodes, by the number of
operands and by immediates.  Replacing origins and names before a run, even by maps that make
different ones equal, is therefore the same as replacing them in its result.

A computation and the one that works on replaced origins and names follow each other step by step:
both take the same temporaries, fail together, and end in the same supply.

## Main definitions

* `Node.relabel` — a node with its origins and its names replaced.
* `LowerM.relabel` — the result of a computation with origins and values replaced.
* `LowerM.Follows` — a computation whose results are those of another one, replaced.

## Main statements

* `LowerM.Follows.bind` — sequences follow each other when their parts do.
* `Pass.follows_expand` — the expansion of one instruction.
* `Pipeline.runFrom_run_relabel` — a run on replaced origins and names.
-/

namespace MacroAsm

/-! ## Replacing origins and names -/

/-- An operand with its name or the origin of its temporary replaced. -/
def Operand.relabel (g : Origin → Origin) (h : String → String) : Operand → Operand
  | register name => register (h name)
  | temporary t => temporary (t.mapOrigin g)
  | immediate value => immediate value
  | label name => label (h name)
  | address text => address (h text)

/-- An instruction with its origins and the names of its operands replaced. -/
def Instruction.relabel (g : Origin → Origin) (h : String → String) (i : Instruction) :
    Instruction :=
  ⟨i.opcode, i.operands.map (Operand.relabel g h), g i.origin⟩

/-- A node with its origins, names and texts replaced. -/
def Node.relabel (g : Origin → Origin) (h : String → String) : Node → Node
  | instruction i => instruction (i.relabel g h)
  | label name o => label (h name) (g o)
  | directive text o => directive (h text) (g o)
  | comment text o => comment (h text) (g o)

/-- A failure with the origin of its instruction replaced. -/
def LowerError.mapOrigin (g : Origin → Origin) : LowerError → LowerError
  | malformed opcode expected found origin => malformed opcode expected found (g origin)
  | exhausted origin => exhausted (g origin)

variable {g : Origin → Origin} {h : String → String}

@[simp] theorem Operand.isImmediate_relabel (v : Int64) (operand : Operand) :
    (operand.relabel g h).isImmediate v = operand.isImmediate v := by
  cases operand <;> rfl

@[simp] theorem Instruction.malformed_relabel (i : Instruction) (expected : Arity) :
    (i.relabel g h).malformed expected = (i.malformed expected).mapOrigin g := by
  simp [malformed, relabel, LowerError.mapOrigin]

/-! ## Computations that follow each other -/

namespace LowerM

variable {α β γ δ : Type}

/-- The result of a computation, its value replaced by `f` and its origin by `g`; the supply stays
as it is. -/
def relabel (g : Origin → Origin) (f : α → β) :
    Except LowerError α × Supply → Except LowerError β × Supply
  | (.ok a, s) => (.ok (f a), s)
  | (.error e, s) => (.error (e.mapOrigin g), s)

/-- From every supply, the results of `m'` are those of `m`, replaced. -/
def Follows (g : Origin → Origin) (f : α → β) (m : LowerM α) (m' : LowerM β) : Prop :=
  ∀ s, m'.runFrom s = relabel g f (m.runFrom s)

namespace Follows

theorem pure {f : α → β} {a : α} {b : β} (hb : b = f a) :
    Follows g f (Pure.pure a) (Pure.pure b) := by
  intro s
  rw [hb]
  rfl

theorem throw {f : α → β} {e e' : LowerError} (he : e' = e.mapOrigin g) :
    Follows g f (MonadExcept.throw e) (MonadExcept.throw e') := by
  intro s
  rw [he]
  rfl

/-- A request for a temporary does not depend on where it comes from. -/
theorem fresh (bank : RegisterClass) (origin : Origin) :
    Follows g (Temporary.mapOrigin g) (fresh bank origin) (MacroAsm.fresh bank (g origin)) := by
  intro s
  rw [runFrom_fresh, runFrom_fresh]
  split <;> rfl

/-- Sequences follow each other when their parts do. -/
theorem bind {f : α → β} {f' : γ → δ} {m : LowerM α} {m' : LowerM β} {k : α → LowerM γ}
    {k' : β → LowerM δ} (hm : Follows g f m m') (hk : ∀ a, Follows g f' (k a) (k' (f a))) :
    Follows g f' (m >>= k) (m' >>= k') := by
  intro s
  rw [runFrom_bind, runFrom_bind, hm s]
  rcases m.runFrom s with ⟨e | a, after⟩
  · rfl
  · exact hk a after

end Follows

end LowerM

/-! ## Expansions -/

open LowerM (Follows)

namespace Instruction

theorem follows_expandNot (i : Instruction) (width : Width) :
    Follows g (List.map (relabel g h)) (i.expandNot width) ((i.relabel g h).expandNot width) := by
  obtain ⟨opcode, operands, origin⟩ := i
  match operands with
  | [x] => exact .pure rfl
  | [] => exact .throw rfl
  | x :: y :: rest => exact .throw (malformed_relabel _ _)

theorem follows_expandMulOverflow (i : Instruction) :
    Follows g (List.map (relabel g h)) i.expandMulOverflow (i.relabel g h).expandMulOverflow := by
  obtain ⟨opcode, operands, origin⟩ := i
  match operands with
  | [a, b, target] => exact .bind (.fresh _ _) fun upper => .bind (.fresh _ _) fun sign => .pure rfl
  | [] => exact .throw rfl
  | [_] => exact .throw rfl
  | [_, _] => exact .throw rfl
  | _ :: _ :: _ :: _ :: _ => exact .throw (malformed_relabel _ _)

theorem follows_expandBitTest (i : Instruction) (form : Form) (width : Width)
    (condition : TestCondition) :
    Follows g (List.map (relabel g h)) (i.expandBitTest form width condition)
      ((i.relabel g h).expandBitTest form width condition) := by
  obtain ⟨opcode, operands, origin⟩ := i
  match operands with
  | [value, target] => exact .pure rfl
  | [left, right, target] =>
      simp only [expandBitTest, relabel, List.map_cons, List.map_nil, Operand.isImmediate_relabel]
      split
      · exact .pure rfl
      split
      · exact .pure rfl
      · exact .bind (.fresh _ _) fun masked => .pure rfl
  | [] => exact .throw rfl
  | [_] => exact .throw rfl
  | _ :: _ :: _ :: _ :: _ => exact .throw (malformed_relabel _ _)

end Instruction

/-! ## Runs -/

namespace Pass

theorem follows_expand (p : Pass) (i : Instruction) :
    Follows g (List.map (Instruction.relabel g h)) (p.expand i) (p.expand (i.relabel g h)) := by
  unfold expand
  have hopcode : (i.relabel g h).opcode = i.opcode := rfl
  rw [hopcode]
  split
  · exact i.follows_expandNot _
  · exact i.follows_expandMulOverflow
  · exact i.follows_expandBitTest _ _ _
  · exact .pure rfl

theorem follows_expandNode (p : Pass) (n : Node) :
    Follows g (List.map (Node.relabel g h)) (p.expandNode n) (p.expandNode (n.relabel g h)) := by
  cases n with
  | instruction i =>
      refine .bind (p.follows_expand i) fun is => .pure ?_
      simp [Node.relabel]
  | label name o => exact .pure rfl
  | directive text o => exact .pure rfl
  | comment text o => exact .pure rfl

theorem follows_run (p : Pass) (ns : List Node) :
    Follows g (List.map (Node.relabel g h)) (p.run ns) (p.run (ns.map (Node.relabel g h))) := by
  induction ns with
  | nil => exact .pure rfl
  | cons n ns ih =>
      refine .bind (p.follows_expandNode n) fun expanded => .bind ih fun rest => .pure ?_
      exact List.map_append.symm

end Pass

namespace Pipeline

theorem follows_run (ps : Pipeline) (ns : List Node) :
    Follows g (List.map (Node.relabel g h)) (run ps ns) (run ps (ns.map (Node.relabel g h))) := by
  induction ps generalizing ns with
  | nil => exact .pure rfl
  | cons p ps ih => exact .bind (p.follows_run ns) ih

/-- **Origins and names are opaque to lowering.**  A run on a listing with its origins replaced by
`g` and its names by `h`, whichever maps these are, gives the result of the run on the listing
itself with origins and names replaced, or fails in the same way at the replaced origin, and leaves
the same supply. -/
theorem runFrom_run_relabel (g : Origin → Origin) (h : String → String) (ps : Pipeline)
    (ns : List Node) (s : Supply) :
    (run ps (ns.map (Node.relabel g h))).runFrom s =
      match (run ps ns).runFrom s with
      | (.ok out, s') => (.ok (out.map (Node.relabel g h)), s')
      | (.error e, s') => (.error (e.mapOrigin g), s') := by
  rw [follows_run ps ns s]
  rcases (run ps ns).runFrom s with ⟨e | out, s'⟩
  · rfl
  · rfl

end Pipeline

end MacroAsm
