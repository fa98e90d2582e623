import MacroAsm.Proofs.Lowering.Runs

/-!
# What a run leaves

A pass takes its own family out of the macro instructions of a listing and touches no other, since
no expansion holds a macro instruction.  The macro instructions after a run are therefore those of
the listing before it that no pass of the run handles, in the same order and with the same origins.

## Main definitions

* `Node.macros` — the macro instructions of a listing.
* `Pass.pending` — those of one family.

## Main statements

* `Pipeline.Runs.macros_eq` — the macro instructions that a run leaves.
* `Pipeline.residue_of_run` — the first of them, and that running again changes nothing.
-/

namespace MacroAsm

namespace Pass

theorem mem_all (p : Pass) : p ∈ all := by
  cases p <;> decide

/-- The families of the passes have no opcode in common. -/
theorem eq_of_handles {p q : Pass} {o : Opcode} (hp : p.handles o = true)
    (hq : q.handles o = true) : p = q := by
  cases o <;> cases p <;> cases q <;> simp_all [handles]

theorem keeps_of_handles_of_ne {p q : Pass} {i : Instruction} (hq : q.handles i.opcode = true)
    (hne : q ≠ p) : p.Keeps (.instruction i) := by
  rintro _ ⟨⟩
  rw [Bool.eq_false_iff]
  intro hp
  exact hne (eq_of_handles hq hp)

theorem not_keeps_iff {p : Pass} {n : Node} :
    ¬p.Keeps n ↔ ∃ i, n = .instruction i ∧ p.handles i.opcode = true := by
  simp only [Keeps, not_forall, Bool.not_eq_false, exists_prop]

/-- The instructions of a listing that a pass replaces, in order. -/
def pending (p : Pass) (nodes : List Node) : List Instruction :=
  (nodes.filterMap Node.instruction?).filter fun i => p.handles i.opcode

end Pass

/-- No pass replaces anything in an expansion. -/
theorem Instruction.Expandable.keeps_of_mem_expansion {i : Instruction} {ids : Nat → UInt32}
    (hi : i.Expandable) (p : Pass) :
    ∀ m ∈ (i.expansion ids).map Node.instruction, p.Keeps m := by
  intro m hm
  obtain ⟨j, hj, rfl⟩ := List.mem_map.mp hm
  rintro _ ⟨⟩
  exact (hi.emitted hj).not_handles p

theorem Instruction.isMacro_iff {i : Instruction} :
    i.isMacro = true ↔ ∃ p : Pass, p.handles i.opcode = true := by
  constructor
  · intro h
    obtain ⟨p, _, hp⟩ := List.any_eq_true.mp h
    exact ⟨p, hp⟩
  · rintro ⟨p, hp⟩
    exact List.any_eq_true.mpr ⟨p, p.mem_all, hp⟩

namespace Node

/-- The macro instructions of a listing, in order. -/
def macros (nodes : List Node) : List Instruction :=
  (nodes.filterMap instruction?).filter Instruction.isMacro

theorem macros_append (as bs : List Node) : macros (as ++ bs) = macros as ++ macros bs := by
  simp [macros]

theorem macros_cons (n : Node) (ns : List Node) : macros (n :: ns) = macros [n] ++ macros ns :=
  macros_append [n] ns

theorem residual?_eq_head?_macros (nodes : List Node) : residual? nodes = (macros nodes).head? :=
  List.head?_filter.symm

end Node

namespace Pass

open Node (macros)

theorem pending_eq_filter_macros (p : Pass) (nodes : List Node) :
    p.pending nodes = (macros nodes).filter fun i => p.handles i.opcode := by
  rw [pending, macros, List.filter_filter]
  refine List.filter_congr fun i _ => ?_
  cases hp : p.handles i.opcode with
  | false => rfl
  | true => simp [Instruction.isMacro_iff.mpr ⟨p, hp⟩]

variable {p : Pass} {ns out : List Node} {s s' : Supply}

theorem pending_cons_of_keeps {n : Node} (hn : p.Keeps n) (ns : List Node) :
    p.pending (n :: ns) = p.pending ns := by
  cases n with
  | instruction i => simp [pending, Node.instruction?, hn i rfl]
  | label name o => rfl
  | directive text o => rfl
  | comment text o => rfl

theorem pending_cons_of_handles {i : Instruction} (hp : p.handles i.opcode = true)
    (ns : List Node) : p.pending (.instruction i :: ns) = i :: p.pending ns := by
  simp [pending, Node.instruction?, hp]

/-- A node that a pass keeps holds no macro instruction of its family. -/
theorem Keeps.filter_macros {n : Node} (hn : p.Keeps n) :
    (macros [n]).filter (fun i => !p.handles i.opcode) = macros [n] := by
  rw [List.filter_eq_self]
  intro i hi
  have hmem : i ∈ [n].filterMap Node.instruction? := (List.mem_filter.mp hi).1
  cases n with
  | instruction j =>
      obtain rfl : i = j := by simpa [Node.instruction?] using hmem
      simp [hn i rfl]
  | label name o => simp [Node.instruction?] at hmem
  | directive text o => simp [Node.instruction?] at hmem
  | comment text o => simp [Node.instruction?] at hmem

theorem filter_macros_instruction {i : Instruction} (hp : p.handles i.opcode = true) :
    (macros [.instruction i]).filter (fun i => !p.handles i.opcode) = [] := by
  simp [macros, Node.instruction?, List.filter_filter, hp]

/-- An expansion holds no macro instruction. -/
theorem macros_expansion {i : Instruction} (hi : i.Expandable) (ids : Nat → UInt32) :
    macros ((i.expansion ids).map .instruction) = [] := by
  rw [macros, List.filter_eq_nil_iff]
  intro j hj hmacro
  have hmem : j ∈ i.expansion ids := by simpa [Node.instruction?, List.filterMap_map] using hj
  obtain ⟨q, hq⟩ := Instruction.isMacro_iff.mp hmacro
  rw [(hi.emitted hmem).not_handles q] at hq
  contradiction

/-- A pass takes its family out of the macro instructions. -/
theorem Runs.macros_eq (h : p.Runs ns s out s') :
    macros out = (macros ns).filter fun i => !p.handles i.opcode := by
  induction h with
  | nil s => rfl
  | @keep n ns out s s' hn _ ih =>
      rw [Node.macros_cons n out, Node.macros_cons n ns, List.filter_append, hn.filter_macros, ih]
  | @expand i ns out s s' hp hi hfit _ ih =>
      rw [Node.macros_append, Node.macros_cons _ ns, List.filter_append,
        filter_macros_instruction hp, macros_expansion hi, ih]

/-- After a pass nothing is pending for it, and for every other pass the same as before. -/
theorem Runs.pending_eq (h : p.Runs ns s out s') (q : Pass) :
    q.pending out = if q = p then [] else q.pending ns := by
  rw [pending_eq_filter_macros, pending_eq_filter_macros, h.macros_eq, List.filter_filter]
  split
  · rename_i heq
    subst heq
    simp
  · rename_i hne
    refine List.filter_congr fun i _ => ?_
    cases hq : q.handles i.opcode with
    | false => rfl
    | true =>
        have hp : p.handles i.opcode = false := keeps_of_handles_of_ne hq hne i rfl
        simp [hp]

end Pass

namespace Pipeline

open Node (macros)

variable {ps : Pipeline} {ns out : List Node} {s s' : Supply}

/-- The macro instructions after a run are those before it that no pass of the run handles. -/
theorem Runs.macros_eq (h : Runs ps ns s out s') :
    macros out = (macros ns).filter fun i => ps.all fun p => !p.handles i.opcode := by
  induction h with
  | nil ns s => exact (List.filter_eq_self.mpr (by simp)).symm
  | cons hp _ ih =>
      rw [ih, hp.macros_eq, List.filter_filter]
      simp only [List.all_cons, Bool.and_comm]

/-- An instruction of some family that no pass of a run handles is one that a pass outside the run
handles. -/
theorem all_not_handles_and_isMacro (ps : Pipeline) (i : Instruction) :
    ((ps.all fun p => !p.handles i.opcode) && i.isMacro) =
      Pass.all.any fun p => decide (p ∉ ps) && p.handles i.opcode := by
  rw [Bool.eq_iff_iff]
  simp only [Bool.and_eq_true, List.all_eq_true, List.any_eq_true, Bool.not_eq_true',
    Instruction.isMacro_iff, decide_eq_true_eq]
  constructor
  · rintro ⟨hnone, p, hp⟩
    refine ⟨p, p.mem_all, ?_, hp⟩
    intro hmem
    rw [hnone p hmem] at hp
    contradiction
  · rintro ⟨p, _, hmem, hp⟩
    refine ⟨?_, p, hp⟩
    intro q hq
    rw [Bool.eq_false_iff]
    intro hhandles
    exact hmem (Pass.eq_of_handles hp hhandles ▸ hq)

/-- **What a run leaves.**  The first macro instruction of the result is the first instruction of
the input that belongs to a pass outside the run, unchanged; when every pass took part there is
none.  Passes of the run, in any order and number, change nothing when they run on the result, and
take nothing from any supply. -/
theorem residue_of_run (h : (run ps ns).runFrom s = (.ok out, s')) :
    Node.residual? out =
        (ns.filterMap Node.instruction?).find?
          (fun i => Pass.all.any fun p => decide (p ∉ ps) && p.handles i.opcode) ∧
      ((∀ p : Pass, p ∈ ps) → Node.residual? out = none) ∧
      ∀ (qs : Pipeline) (t : Supply), (∀ q ∈ qs, q ∈ ps) →
        (run qs out).runFrom t = (.ok out, t) := by
  have hruns := runFrom_run_eq_ok.mp h
  have hresidual : Node.residual? out =
      (ns.filterMap Node.instruction?).find?
        (fun i => Pass.all.any fun p => decide (p ∉ ps) && p.handles i.opcode) := by
    rw [Node.residual?_eq_head?_macros, hruns.macros_eq, macros, List.filter_filter,
      List.head?_filter]
    simp only [all_not_handles_and_isMacro]
  refine ⟨hresidual, ?_, ?_⟩
  · intro hall
    rw [hresidual, List.find?_eq_none]
    simp [hall]
  · intro qs t hqs
    exact runFrom_run_of_keeps (fun q hq => hruns.keeps q (hqs q hq)) t

/-- A bit test is replaced and the complement before it stays; replacing bit tests again needs no
temporary. -/
theorem residue_of_run_bitTest :
    let flip : Instruction := ⟨.not .int, [.register "t0"], .synthetic⟩
    let test : Instruction :=
      ⟨.bitTest .branch .int .zero, [.register "t0", .register "t1", .label ".L"], .synthetic⟩
    let out : List Node :=
      .instruction flip :: (test.expansion (Supply.above none).upcoming).map .instruction
    let exhausted : Supply := .above (some 4294967295)
    (run [.bitTest] [.instruction flip, .instruction test]).runFrom (.above none) =
        (.ok out, (Supply.above none).skip 1 (by decide)) ∧
      Node.residual? out = some flip ∧
      (run [.bitTest, .bitTest] out).runFrom exhausted = (.ok out, exhausted) := by
  intro flip test out exhausted
  have hrun : (run [.bitTest] [.instruction flip, .instruction test]).runFrom (.above none) =
      (.ok out, (Supply.above none).skip 1 (by decide)) := by
    rfl
  obtain ⟨hresidual, _, hrerun⟩ := residue_of_run hrun
  refine ⟨hrun, ?_, hrerun _ _ (by simp)⟩
  rw [hresidual]
  rfl

end Pipeline

end MacroAsm
