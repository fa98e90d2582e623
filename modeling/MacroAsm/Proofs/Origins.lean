import MacroAsm.Node

/-!
# Nodes up to origins

Reading a text gives every node, and every temporary among its operands, a place in that text.  Two
listings that differ in nothing else are written the same and use the same temporaries.

## Main definitions

* `Node.mapOrigin` — a node with its origins replaced, those inside its operands included.
* `Node.SameUpToOrigins` — lists of nodes that differ in origins only.
-/

namespace MacroAsm

/-- A temporary with its origin replaced. -/
def Temporary.mapOrigin (g : Origin → Origin) (t : Temporary) : Temporary :=
  { t with origin := g t.origin }

/-- An operand with the origin of its temporary, if it is one, replaced. -/
def Operand.mapOrigin (g : Origin → Origin) : Operand → Operand
  | temporary t => temporary (t.mapOrigin g)
  | operand => operand

/-- An instruction with its origins replaced. -/
def Instruction.mapOrigin (g : Origin → Origin) (i : Instruction) : Instruction :=
  ⟨i.opcode, i.operands.map (Operand.mapOrigin g), g i.origin⟩

namespace Operand

variable (g : Origin → Origin)

@[simp] theorem text_mapOrigin (operand : Operand) : (operand.mapOrigin g).text = operand.text := by
  cases operand <;> rfl

@[simp] theorem temporary?_mapOrigin (operand : Operand) :
    (operand.mapOrigin g).temporary? = operand.temporary?.map (Temporary.mapOrigin g) := by
  cases operand <;> rfl

end Operand

namespace Instruction

variable (g : Origin → Origin)

@[simp] theorem text_mapOrigin (i : Instruction) : (i.mapOrigin g).text = i.text := by
  have htexts : (i.mapOrigin g).operands.map Operand.text = i.operands.map Operand.text := by
    simp [mapOrigin, Function.comp_def]
  cases hops : i.operands with
  | nil => simp [text, mapOrigin, hops]
  | cons first rest =>
      simp only [text, mapOrigin, hops, List.map_cons] at htexts ⊢
      rw [htexts]

@[simp] theorem temporaries_mapOrigin (i : Instruction) :
    (i.mapOrigin g).temporaries = i.temporaries.map (Temporary.mapOrigin g) := by
  simp only [temporaries, mapOrigin, List.filterMap_map, List.map_filterMap]
  congr 1
  funext operand
  simp

end Instruction

namespace Node

/-- A node with its origins replaced. -/
def mapOrigin (g : Origin → Origin) : Node → Node
  | instruction i => instruction (i.mapOrigin g)
  | label name o => label name (g o)
  | directive text o => directive text (g o)
  | comment text o => comment text (g o)

/-- Lists of nodes that differ in origins only. -/
def SameUpToOrigins (ms ns : List Node) : Prop :=
  ms.map (mapOrigin fun _ => .synthetic) = ns.map (mapOrigin fun _ => .synthetic)

variable (g : Origin → Origin)

@[simp] theorem text_mapOrigin (node : Node) : (node.mapOrigin g).text = node.text := by
  cases node <;> simp [mapOrigin, text]

@[simp] theorem instruction?_mapOrigin (node : Node) :
    (node.mapOrigin g).instruction? = node.instruction?.map (Instruction.mapOrigin g) := by
  cases node <;> rfl

/-- Replacing origins twice replaces them by the composition. -/
theorem mapOrigin_mapOrigin (f : Origin → Origin) (node : Node) :
    (node.mapOrigin g).mapOrigin f = node.mapOrigin fun o => f (g o) := by
  have hoperand : ∀ operand : Operand,
      (operand.mapOrigin g).mapOrigin f = operand.mapOrigin fun o => f (g o) := by
    intro operand
    cases operand <;> rfl
  cases node <;> simp [mapOrigin, Instruction.mapOrigin, hoperand]

/-- The last replacement counts. -/
@[simp] theorem mapOrigin_const (node : Node) (o : Origin) :
    (node.mapOrigin g).mapOrigin (fun _ => o) = node.mapOrigin fun _ => o :=
  mapOrigin_mapOrigin g (fun _ => o) node

theorem temporaries_mapOrigin (nodes : List Node) :
    temporaries (nodes.map (mapOrigin g)) = (temporaries nodes).map (Temporary.mapOrigin g) := by
  have hinstructions : (nodes.map (mapOrigin g)).filterMap instruction? =
      (nodes.filterMap instruction?).map (Instruction.mapOrigin g) := by
    rw [List.filterMap_map, List.map_filterMap]
    congr 1
    funext node
    simp
  simp only [temporaries, hinstructions, List.flatMap_map, List.map_flatMap,
    Instruction.temporaries_mapOrigin]

theorem highestId_mapOrigin (ts : List Temporary) :
    Temporary.highestId (ts.map (Temporary.mapOrigin g)) = Temporary.highestId ts := by
  induction ts with
  | nil => rfl
  | cons t ts ih =>
      simp only [List.map_cons, Temporary.highestId, ih]
      rfl

@[simp] theorem maxTemporary_mapOrigin (nodes : List Node) :
    maxTemporary (nodes.map (mapOrigin g)) = maxTemporary nodes := by
  rw [maxTemporary, temporaries_mapOrigin, highestId_mapOrigin, ← maxTemporary]

theorem print_eq_of_map_text_eq {ms ns : List Node} (h : ms.map text = ns.map text) :
    print ms = print ns := by
  have hcomp : (fun node : Node => node.text ++ "\n") = (· ++ "\n") ∘ text := rfl
  rw [print, print, hcomp, ← List.map_map, ← List.map_map, h]

namespace SameUpToOrigins

variable {ms ns : List Node}

theorem map_text_eq (h : SameUpToOrigins ms ns) : ms.map text = ns.map text := by
  have := congrArg (List.map text) h
  simpa [Function.comp_def] using this

/-- Origins are not written. -/
theorem print_eq (h : SameUpToOrigins ms ns) : print ms = print ns :=
  print_eq_of_map_text_eq h.map_text_eq

/-- Origins do not number temporaries. -/
theorem maxTemporary_eq (h : SameUpToOrigins ms ns) : maxTemporary ms = maxTemporary ns := by
  rw [← maxTemporary_mapOrigin (fun _ => .synthetic) ms, h, maxTemporary_mapOrigin]

end SameUpToOrigins

end Node

end MacroAsm
