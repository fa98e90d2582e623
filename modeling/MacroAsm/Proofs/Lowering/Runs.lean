import MacroAsm.Lowering.Pipeline
import Mathlib.Tactic.Common

/-!
# Runs that succeed

What a pass puts in the place of a macro instruction depends on the supply only through the numbers
of the temporaries it takes.  Here the expansion is a function of these numbers, and a run that
succeeds is a derivation: each node either stays or is replaced by its expansion, and the supply
moves on by what the expansion takes.  Everything else about runs that succeed is an induction over
derivations.

## Main definitions

* `Instruction.Expandable` — the macro instructions with a right number of operands.
* `Instruction.demand`, `Instruction.expansion` — how many temporaries a macro instruction takes,
  and what replaces it when they have given numbers.
* `Pass.Runs`, `Pipeline.Runs` — the runs that succeed.

## Main statements

* `Pass.runFrom_run_eq_ok`, `Pipeline.runFrom_run_eq_ok` — the derivations are the runs that
  succeed.
* `Pipeline.Runs.keeps` — nothing is left for the passes that ran.
* `Pipeline.runFrom_run_of_keeps` — passes with nothing to do change nothing.
-/

namespace MacroAsm

/-! ## The supply -/

namespace Supply

/-- The supply after `n` more numbers are handed out. -/
def skip (s : Supply) (n : Nat) (h : s.next + n ≤ capacity) : Supply :=
  ⟨s.next + n, s.allocated + n, h⟩

/-- The numbers that will be handed out, in order. -/
def upcoming (s : Supply) (k : Nat) : UInt32 :=
  UInt32.ofNat (s.next + k)

@[simp] theorem next_skip (s : Supply) (n : Nat) (h : s.next + n ≤ capacity) :
    (s.skip n h).next = s.next + n := rfl

@[simp] theorem skip_zero (s : Supply) (h : s.next + 0 ≤ capacity) : s.skip 0 h = s := rfl

theorem toNat_upcoming {s : Supply} {k : Nat} (h : s.next + k < capacity) :
    (s.upcoming k).toNat = s.next + k :=
  UInt32.toNat_ofNat_of_lt h

end Supply

namespace LowerM

variable {α β : Type}

theorem runFrom_bind_eq_ok {m : LowerM α} {f : α → LowerM β} {s s' : Supply} {b : β} :
    runFrom (m >>= f) s = (.ok b, s') ↔
      ∃ a mid, runFrom m s = (.ok a, mid) ∧ runFrom (f a) mid = (.ok b, s') := by
  rw [runFrom_bind]
  rcases runFrom m s with ⟨e | a, mid⟩ <;> simp

theorem runFrom_fresh_eq_ok {bank : RegisterClass} {origin : Origin} {s s' : Supply}
    {t : Temporary} :
    (fresh bank origin).runFrom s = (.ok t, s') ↔
      ∃ h : s.next + 1 ≤ Supply.capacity, t = ⟨s.upcoming 0, bank, origin⟩ ∧ s' = s.skip 1 h := by
  rw [runFrom_fresh]
  by_cases h : s.next < Supply.capacity
  · simp only [h, dif_pos, Prod.mk.injEq, Except.ok.injEq]
    constructor
    · rintro ⟨rfl, rfl⟩
      exact ⟨h, rfl, rfl⟩
    · rintro ⟨_, rfl, rfl⟩
      exact ⟨rfl, rfl⟩
  · simp only [h, dif_neg, not_false_eq_true, Prod.mk.injEq, reduceCtorEq, false_and, false_iff]
    rintro ⟨hlt, _⟩
    exact h hlt

end LowerM

/-! ## Expansions -/

namespace Instruction

/-- A macro instruction with a number of operands that its family takes. -/
inductive Expandable : Instruction → Prop
  | not (width : Width) (x : Operand) (origin : Origin) : Expandable ⟨.not width, [x], origin⟩
  | mulOverflow (a b target : Operand) (origin : Origin) :
      Expandable ⟨.branchMulOverflow, [a, b, target], origin⟩
  | testOne (form : Form) (width : Width) (condition : TestCondition) (value target : Operand)
      (origin : Origin) : Expandable ⟨.bitTest form width condition, [value, target], origin⟩
  | testTwo (form : Form) (width : Width) (condition : TestCondition) (left right target : Operand)
      (origin : Origin) : Expandable ⟨.bitTest form width condition, [left, right, target], origin⟩

/-- How many temporaries the expansion of an instruction takes. -/
def demand (i : Instruction) : Nat :=
  match i.opcode, i.operands with
  | .branchMulOverflow, [_, _, _] => 2
  | .bitTest _ _ _, [left, right, _] =>
    if left.isImmediate (-1) || right.isImmediate (-1) then 0 else 1
  | _, _ => 0

/-- How many temporaries the expansions of some instructions take together. -/
def totalDemand : List Instruction → Nat
  | [] => 0
  | i :: is => i.demand + totalDemand is

/-- What replaces an instruction when the temporaries it takes have the numbers `ids`. -/
def expansion (i : Instruction) (ids : Nat → UInt32) : List Instruction :=
  let taken (k : Nat) : Operand := .temporary ⟨ids k, .general, i.origin⟩
  match i.opcode, i.operands with
  | .not width, [x] => [i.replace (.xor width) [.immediate (-1), x]]
  | .branchMulOverflow, [a, b, target] => [
      i.replace .signedMulLong [a, b, b],
      i.replace (.rightShift .ptr) [b, .immediate 32, taken 0],
      i.replace (.rightShift .int) [b, .immediate 31, taken 1],
      i.replace .zeroExtendIntToPtr [b, b],
      i.replace (.compare .branch .int .notEqual) [taken 0, taken 1, target]]
  | .bitTest form width condition, [value, target] =>
    [i.replace (.zeroCompareOf form width condition) [value, .immediate 0, target]]
  | .bitTest form width condition, [left, right, target] =>
    if left.isImmediate (-1) then
      [i.replace (.zeroCompareOf form width condition) [right, .immediate 0, target]]
    else if right.isImmediate (-1) then
      [i.replace (.zeroCompareOf form width condition) [left, .immediate 0, target]]
    else [
      i.replace (.maskOf width) [left, right, taken 0],
      i.replace (.zeroCompareOf form width condition) [taken 0, .immediate 0, target]]
  | _, _ => [i]

end Instruction

/-! ## What an expansion is made of -/

namespace Opcode

theorem xor_mem_known (width : Width) : xor width ∈ known := by
  cases width <;> decide

theorem maskOf_mem_known (width : Width) : maskOf width ∈ known := by
  cases width <;> decide

theorem compare_mem_known (form : Form) (width : Width) (comparison : Comparison) :
    compare form width comparison ∈ known := by
  have hform : form ∈ Form.all := by cases form <;> decide
  have hwidth : width ∈ Width.all := by cases width <;> decide
  have hcomparison : comparison ∈ Comparison.all := by cases comparison <;> decide
  refine List.mem_append_right _ ?_
  rw [List.mem_flatMap]
  refine ⟨form, hform, ?_⟩
  rw [List.mem_flatMap]
  exact ⟨width, hwidth, List.mem_map.mpr ⟨comparison, hcomparison, rfl⟩⟩

theorem not_handles_maskOf (p : Pass) (width : Width) : p.handles (maskOf width) = false := by
  cases p <;> cases width <;> rfl

theorem not_handles_zeroCompareOf (p : Pass) (form : Form) (width : Width)
    (condition : TestCondition) : p.handles (zeroCompareOf form width condition) = false := by
  cases p <;> rfl

end Opcode

namespace Instruction

/-- An operand that an expansion of `i` can use: one of `i`, an immediate, or a temporary that was
taken for it. -/
inductive Supplied (i : Instruction) (ids : Nat → UInt32) : Operand → Prop
  | operand {o : Operand} (h : o ∈ i.operands) : Supplied i ids o
  | immediate (v : Int64) : Supplied i ids (.immediate v)
  | taken {k : Nat} (h : k < i.demand) : Supplied i ids (.temporary ⟨ids k, .general, i.origin⟩)

/-- An instruction of an expansion of `i`: an opcode that has a spelling and that no pass handles,
applied to operands that the expansion can use. -/
structure Emitted (i : Instruction) (ids : Nat → UInt32) (j : Instruction) : Prop where
  known : j.opcode ∈ Opcode.known
  not_handles : ∀ p : Pass, p.handles j.opcode = false
  operands : ∀ o ∈ j.operands, Supplied i ids o

theorem emitted_zeroCompareOf {i : Instruction} {ids : Nat → UInt32} {value target : Operand}
    (form : Form) (width : Width) (condition : TestCondition) (hvalue : Supplied i ids value)
    (htarget : Supplied i ids target) :
    Emitted i ids
      (i.replace (.zeroCompareOf form width condition) [value, .immediate 0, target]) where
  known := Opcode.compare_mem_known form width _
  not_handles p := Opcode.not_handles_zeroCompareOf p form width condition
  operands := by simp [replace, hvalue, htarget, Supplied.immediate]

theorem Expandable.emitted {i j : Instruction} {ids : Nat → UInt32} (hi : i.Expandable)
    (hj : j ∈ i.expansion ids) : Emitted i ids j := by
  have hsupplied : ∀ o ∈ i.operands, Supplied i ids o := fun o => .operand
  cases hi with
  | not width x origin =>
      obtain rfl := List.mem_singleton.mp hj
      have hx := hsupplied x (by simp)
      refine ⟨Opcode.xor_mem_known width, fun p => by cases p <;> rfl, ?_⟩
      simp [replace, hx, Supplied.immediate]
  | mulOverflow a b target origin =>
      have ha := hsupplied a (by simp)
      have hb := hsupplied b (by simp)
      have htarget := hsupplied target (by simp)
      have hupper : Supplied ⟨.branchMulOverflow, [a, b, target], origin⟩ ids
          (.temporary ⟨ids 0, .general, origin⟩) := .taken Nat.zero_lt_two
      have hsign : Supplied ⟨.branchMulOverflow, [a, b, target], origin⟩ ids
          (.temporary ⟨ids 1, .general, origin⟩) := .taken Nat.one_lt_two
      simp only [expansion, List.mem_cons, List.not_mem_nil, or_false] at hj
      rcases hj with rfl | rfl | rfl | rfl | rfl
      all_goals
        refine ⟨by simp only [replace]; decide, fun p => by cases p <;> rfl, ?_⟩
        simp [replace, ha, hb, htarget, hupper, hsign, Supplied.immediate]
  | testOne form width condition value target origin =>
      obtain rfl := List.mem_singleton.mp hj
      exact emitted_zeroCompareOf form width condition (hsupplied value (by simp))
        (hsupplied target (by simp))
  | testTwo form width condition left right target origin =>
      have hleft := hsupplied left (by simp)
      have hright := hsupplied right (by simp)
      have htarget := hsupplied target (by simp)
      simp only [expansion] at hj
      split at hj
      · obtain rfl := List.mem_singleton.mp hj
        exact emitted_zeroCompareOf form width condition hright htarget
      split at hj
      · obtain rfl := List.mem_singleton.mp hj
        exact emitted_zeroCompareOf form width condition hleft htarget
      rename_i hnotLeft hnotRight
      have hmasked : Supplied ⟨.bitTest form width condition, [left, right, target], origin⟩ ids
          (.temporary ⟨ids 0, .general, origin⟩) := .taken (by simp [demand, hnotLeft, hnotRight])
      simp only [List.mem_cons, List.not_mem_nil, or_false] at hj
      rcases hj with rfl | rfl
      · refine ⟨Opcode.maskOf_mem_known width, fun p => Opcode.not_handles_maskOf p width, ?_⟩
        simp [replace, hleft, hright, hmasked]
      · exact emitted_zeroCompareOf form width condition hmasked htarget

/-- A temporary of an expansion is one of the instruction or was taken for it. -/
theorem Emitted.temporaries {i j : Instruction} {ids : Nat → UInt32} (h : Emitted i ids j)
    {t : Temporary} (ht : t ∈ j.temporaries) :
    t ∈ i.temporaries ∨ ∃ k < i.demand, t = ⟨ids k, .general, i.origin⟩ := by
  obtain ⟨o, ho, htemp⟩ := List.mem_filterMap.mp ht
  cases h.operands o ho with
  | operand ho => exact .inl (List.mem_filterMap.mpr ⟨o, ho, htemp⟩)
  | immediate v => simp [Operand.temporary?] at htemp
  | @taken k hk =>
      right
      refine ⟨k, hk, ?_⟩
      simpa [Operand.temporary?] using htemp.symm

theorem Expandable.expansion_ne_nil {i : Instruction} (hi : i.Expandable) (ids : Nat → UInt32) :
    i.expansion ids ≠ [] := by
  cases hi with
  | not => simp [expansion]
  | mulOverflow => simp [expansion]
  | testOne => simp [expansion]
  | testTwo =>
      simp only [expansion]
      split
      · simp
      split <;> simp

end Instruction

/-! ## What the passes do with an instruction -/

namespace Instruction

variable {i : Instruction} {s s' : Supply} {is : List Instruction}

theorem runFrom_expandNot_eq_ok {width : Width} (h : i.opcode = .not width) :
    (i.expandNot width).runFrom s = (.ok is, s') ↔
      i.Expandable ∧ ∃ h : s.next + i.demand ≤ Supply.capacity,
        is = i.expansion s.upcoming ∧ s' = s.skip i.demand h := by
  obtain ⟨opcode, operands, origin⟩ := i
  subst h
  simp only [expandNot]
  split
  · rename_i x
    have hexp : Expandable ⟨.not width, [x], origin⟩ := .not width x origin
    simp [expansion, demand, hexp, s.next_le, eq_comm]
  · rename_i hne
    refine iff_of_false (by simp) ?_
    rintro ⟨hexp, _⟩
    cases hexp with
    | not => exact hne _ rfl

theorem runFrom_expandMulOverflow_eq_ok (h : i.opcode = .branchMulOverflow) :
    i.expandMulOverflow.runFrom s = (.ok is, s') ↔
      i.Expandable ∧ ∃ h : s.next + i.demand ≤ Supply.capacity,
        is = i.expansion s.upcoming ∧ s' = s.skip i.demand h := by
  obtain ⟨opcode, operands, origin⟩ := i
  subst h
  simp only [expandMulOverflow]
  split
  · rename_i a b target
    have hexp : Expandable ⟨.branchMulOverflow, [a, b, target], origin⟩ :=
      .mulOverflow a b target origin
    simp only [LowerM.runFrom_bind_eq_ok, LowerM.runFrom_fresh_eq_ok, LowerM.runFrom_pure,
      expansion, demand, hexp, true_and]
    constructor
    · rintro ⟨upper, mid, ⟨hmid, rfl, rfl⟩, sign, after, ⟨hafter, rfl, rfl⟩, heq⟩
      obtain ⟨rfl, rfl⟩ : _ ∧ _ := by simpa using heq.symm
      exact ⟨hafter, rfl, rfl⟩
    · rintro ⟨h, rfl, rfl⟩
      have hmid : s.next + 1 ≤ Supply.capacity := by omega
      exact ⟨_, _, ⟨hmid, rfl, rfl⟩, _, _, ⟨h, rfl, rfl⟩, rfl⟩
  · rename_i hne
    refine iff_of_false (by simp) ?_
    rintro ⟨hexp, _⟩
    cases hexp with
    | mulOverflow => exact hne _ _ _ rfl

theorem runFrom_expandBitTest_eq_ok {form : Form} {width : Width} {condition : TestCondition}
    (h : i.opcode = .bitTest form width condition) :
    (i.expandBitTest form width condition).runFrom s = (.ok is, s') ↔
      i.Expandable ∧ ∃ h : s.next + i.demand ≤ Supply.capacity,
        is = i.expansion s.upcoming ∧ s' = s.skip i.demand h := by
  obtain ⟨opcode, operands, origin⟩ := i
  subst h
  simp only [expandBitTest]
  split
  · rename_i value target
    have hexp : Expandable ⟨.bitTest form width condition, [value, target], origin⟩ :=
      .testOne form width condition value target origin
    simp [expansion, demand, hexp, s.next_le, eq_comm]
  · rename_i left right target
    have hexp : Expandable ⟨.bitTest form width condition, [left, right, target], origin⟩ :=
      .testTwo form width condition left right target origin
    by_cases hleft : left.isImmediate (-1) = true
    · simp [expansion, demand, hexp, hleft, s.next_le, eq_comm]
    by_cases hright : right.isImmediate (-1) = true
    · simp [expansion, demand, hexp, hleft, hright, s.next_le, eq_comm]
    simp only [hleft, hright, if_false, LowerM.runFrom_bind_eq_ok, LowerM.runFrom_fresh_eq_ok,
      LowerM.runFrom_pure, expansion, demand, hexp, true_and, Bool.or_self, Bool.false_eq_true]
    constructor
    · rintro ⟨masked, mid, ⟨hmid, rfl, rfl⟩, heq⟩
      obtain ⟨rfl, rfl⟩ : _ ∧ _ := by simpa using heq.symm
      exact ⟨hmid, rfl, rfl⟩
    · rintro ⟨h, rfl, rfl⟩
      exact ⟨_, _, ⟨h, rfl, rfl⟩, rfl⟩
  · rename_i hone htwo
    refine iff_of_false (by simp) ?_
    rintro ⟨hexp, _⟩
    cases hexp with
    | testOne => exact hone _ _ rfl
    | testTwo => exact htwo _ _ _ rfl

end Instruction

namespace Pass

/-- A macro instruction is replaced when it has a right number of operands and the supply has the
temporaries it takes. -/
theorem runFrom_expand_eq_ok {p : Pass} {i : Instruction} {s s' : Supply} {is : List Instruction}
    (hp : p.handles i.opcode = true) :
    (p.expand i).runFrom s = (.ok is, s') ↔
      i.Expandable ∧ ∃ h : s.next + i.demand ≤ Supply.capacity,
        is = i.expansion s.upcoming ∧ s' = s.skip i.demand h := by
  unfold expand
  split
  · exact Instruction.runFrom_expandNot_eq_ok ‹_›
  · exact Instruction.runFrom_expandMulOverflow_eq_ok ‹_›
  · exact Instruction.runFrom_expandBitTest_eq_ok ‹_›
  · rename_i hnot hmul htest
    exfalso
    unfold handles at hp
    split at hp <;> simp_all

/-- A node that a pass leaves as it is. -/
def Keeps (p : Pass) (n : Node) : Prop :=
  ∀ i, n = .instruction i → p.handles i.opcode = false

/-- The runs of a pass that succeed. -/
inductive Runs (p : Pass) : List Node → Supply → List Node → Supply → Prop
  | nil (s : Supply) : Runs p [] s [] s
  | keep {n : Node} {ns out : List Node} {s s' : Supply} (hn : p.Keeps n)
      (hrest : Runs p ns s out s') : Runs p (n :: ns) s (n :: out) s'
  | expand {i : Instruction} {ns out : List Node} {s s' : Supply} (hp : p.handles i.opcode = true)
      (hi : i.Expandable) (hfit : s.next + i.demand ≤ Supply.capacity)
      (hrest : Runs p ns (s.skip i.demand hfit) out s') :
      Runs p (.instruction i :: ns) s ((i.expansion s.upcoming).map .instruction ++ out) s'

variable {p : Pass} {n : Node} {ns out : List Node} {s s' : Supply}

theorem runFrom_expandNode_of_keeps (h : p.Keeps n) :
    (p.expandNode n).runFrom s = (.ok [n], s) := by
  cases n with
  | instruction i => rw [expandNode, expand_of_not_handles (h i rfl)]; rfl
  | label name o => rfl
  | directive text o => rfl
  | comment text o => rfl

theorem runFrom_expandNode_eq_ok {i : Instruction} {ms : List Node}
    (hp : p.handles i.opcode = true) :
    (p.expandNode (.instruction i)).runFrom s = (.ok ms, s') ↔
      i.Expandable ∧ ∃ h : s.next + i.demand ≤ Supply.capacity,
        ms = (i.expansion s.upcoming).map .instruction ∧ s' = s.skip i.demand h := by
  simp only [expandNode, LowerM.runFrom_bind_eq_ok, runFrom_expand_eq_ok hp, LowerM.runFrom_pure]
  constructor
  · rintro ⟨is, mid, ⟨hi, hfit, rfl, rfl⟩, heq⟩
    obtain ⟨rfl, rfl⟩ : _ ∧ _ := by simpa using heq.symm
    exact ⟨hi, hfit, rfl, rfl⟩
  · rintro ⟨hi, hfit, rfl, rfl⟩
    exact ⟨_, _, ⟨hi, hfit, rfl, rfl⟩, rfl⟩

theorem runFrom_run_cons_eq_ok :
    (p.run (n :: ns)).runFrom s = (.ok out, s') ↔
      ∃ ms mid rest, (p.expandNode n).runFrom s = (.ok ms, mid) ∧
        (p.run ns).runFrom mid = (.ok rest, s') ∧ out = ms ++ rest := by
  simp only [run, LowerM.runFrom_bind_eq_ok, LowerM.runFrom_pure]
  constructor
  · rintro ⟨ms, mid, hms, rest, after, hrest, heq⟩
    obtain ⟨rfl, rfl⟩ : _ ∧ _ := by simpa using heq.symm
    exact ⟨ms, mid, rest, hms, hrest, rfl⟩
  · rintro ⟨ms, mid, rest, hms, hrest, rfl⟩
    exact ⟨ms, mid, hms, rest, s', hrest, rfl⟩

/-- The derivations are the runs that succeed. -/
theorem runFrom_run_eq_ok : (p.run ns).runFrom s = (.ok out, s') ↔ p.Runs ns s out s' := by
  constructor
  · intro h
    induction ns generalizing s out with
    | nil =>
        obtain ⟨rfl, rfl⟩ : _ ∧ _ := by simpa [run] using h.symm
        exact .nil _
    | cons n ns ih =>
        obtain ⟨ms, mid, rest, hms, hrest, rfl⟩ := runFrom_run_cons_eq_ok.mp h
        by_cases hn : p.Keeps n
        · rw [runFrom_expandNode_of_keeps hn] at hms
          obtain ⟨rfl, rfl⟩ : _ ∧ _ := by simpa using hms.symm
          exact .keep hn (ih hrest)
        · simp only [Keeps, not_forall, Bool.not_eq_false] at hn
          obtain ⟨i, rfl, hp⟩ := hn
          obtain ⟨hi, hfit, rfl, rfl⟩ := (runFrom_expandNode_eq_ok hp).mp hms
          exact .expand hp hi hfit (ih hrest)
  · intro h
    induction h with
    | nil s => rfl
    | keep hn _ ih =>
        rw [runFrom_run_cons_eq_ok]
        exact ⟨_, _, _, runFrom_expandNode_of_keeps hn, ih, rfl⟩
    | expand hp hi hfit _ ih =>
        rw [runFrom_run_cons_eq_ok]
        exact ⟨_, _, _, (runFrom_expandNode_eq_ok hp).mpr ⟨hi, hfit, rfl, rfl⟩, ih, rfl⟩

namespace Runs

/-- A pass with nothing to replace changes nothing. -/
theorem of_keeps (h : ∀ n ∈ ns, p.Keeps n) (s : Supply) : p.Runs ns s ns s := by
  induction ns with
  | nil => exact .nil s
  | cons n ns ih =>
      exact .keep (h n List.mem_cons_self) (ih fun m hm => h m (List.mem_cons_of_mem n hm))

theorem next_le_next (h : p.Runs ns s out s') : s.next ≤ s'.next := by
  induction h with
  | nil s => exact Nat.le_refl _
  | keep _ _ ih => exact ih
  | expand _ _ _ _ ih =>
      rw [Supply.next_skip] at ih
      omega

/-- What holds of the nodes before a pass, and of an expansion when it holds of the instruction that
is replaced, holds of the nodes after it.  The temporaries of an expansion are numbered with what
the pass takes from the supply. -/
theorem forall_mem {P : Node → Prop} (h : p.Runs ns s out s') (hns : ∀ n ∈ ns, P n)
    (hstep : ∀ i ids, i.Expandable → P (.instruction i) →
      (∀ k < i.demand, s.next ≤ (ids k).toNat ∧ (ids k).toNat < s'.next) →
      ∀ j ∈ i.expansion ids, P (.instruction j)) :
    ∀ m ∈ out, P m := by
  induction h with
  | nil s => simp
  | keep hn _ ih =>
      intro m hm
      rcases List.mem_cons.mp hm with rfl | hm
      · exact hns m List.mem_cons_self
      · exact ih (fun n hn => hns n (List.mem_cons_of_mem _ hn)) hstep m hm
  | @expand i ns out s s' hp hi hfit hrest ih =>
      have hle := hrest.next_le_next
      rw [Supply.next_skip] at hle
      intro m hm
      rcases List.mem_append.mp hm with hm | hm
      · obtain ⟨j, hj, rfl⟩ := List.mem_map.mp hm
        refine hstep i s.upcoming hi (hns _ List.mem_cons_self) ?_ j hj
        intro k hk
        rw [Supply.toNat_upcoming (by omega)]
        omega
      · refine ih (fun n hn => hns n (List.mem_cons_of_mem _ hn)) ?_ m hm
        intro j ids hj hpj hids
        refine hstep j ids hj hpj ?_
        intro k hk
        have := hids k hk
        rw [Supply.next_skip] at this
        omega

/-- After a pass the temporaries are still numbered below what is left in the supply. -/
theorem toNat_id_lt (h : p.Runs ns s out s')
    (hns : ∀ i, .instruction i ∈ ns → ∀ t ∈ i.temporaries, t.id.toNat < s.next) :
    ∀ i, .instruction i ∈ out → ∀ t ∈ i.temporaries, t.id.toNat < s'.next := by
  let P (n : Node) : Prop := ∀ i, n = .instruction i → ∀ t ∈ i.temporaries, t.id.toNat < s'.next
  have hout : ∀ m ∈ out, P m := by
    refine h.forall_mem ?_ ?_
    · rintro n hn i rfl t ht
      have := hns i hn t ht
      have := h.next_le_next
      omega
    · rintro i ids hi hpi hids j hj _ ⟨⟩ t ht
      rcases (hi.emitted hj).temporaries ht with ht | ⟨k, hk, rfl⟩
      · exact hpi i rfl t ht
      · exact (hids k hk).2
  intro i hi
  exact hout _ hi i rfl

/-- A pass leaves nothing that it handles. -/
theorem keeps (h : p.Runs ns s out s') : ∀ m ∈ out, p.Keeps m := by
  induction h with
  | nil s => simp
  | keep hn _ ih =>
      intro m hm
      rcases List.mem_cons.mp hm with rfl | hm
      · exact hn
      · exact ih m hm
  | expand hp hi hfit _ ih =>
      intro m hm
      rcases List.mem_append.mp hm with hm | hm
      · obtain ⟨j, hj, rfl⟩ := List.mem_map.mp hm
        rintro _ ⟨⟩
        exact (hi.emitted hj).not_handles p
      · exact ih m hm

end Runs

end Pass

/-! ## Pipelines -/

namespace Pipeline

/-- The runs of a pipeline that succeed. -/
inductive Runs : Pipeline → List Node → Supply → List Node → Supply → Prop
  | nil (ns : List Node) (s : Supply) : Runs [] ns s ns s
  | cons {p : Pass} {ps : Pipeline} {ns mid out : List Node} {s s₁ s' : Supply}
      (hp : p.Runs ns s mid s₁) (hps : Runs ps mid s₁ out s') : Runs (p :: ps) ns s out s'

variable {ps : Pipeline} {ns out : List Node} {s s' : Supply}

theorem runFrom_run_eq_ok : (run ps ns).runFrom s = (.ok out, s') ↔ Runs ps ns s out s' := by
  induction ps generalizing ns s with
  | nil =>
      simp only [run, LowerM.runFrom_pure, Prod.mk.injEq, Except.ok.injEq]
      constructor
      · rintro ⟨rfl, rfl⟩
        exact .nil ns s
      · rintro ⟨⟩
        exact ⟨rfl, rfl⟩
  | cons p ps ih =>
      simp only [run, LowerM.runFrom_bind_eq_ok, Pass.runFrom_run_eq_ok, ih]
      constructor
      · rintro ⟨mid, s₁, hp, hps⟩
        exact .cons hp hps
      · rintro ⟨⟩
        exact ⟨_, _, ‹_›, ‹_›⟩

namespace Runs

theorem next_le_next (h : Runs ps ns s out s') : s.next ≤ s'.next := by
  induction h with
  | nil ns s => exact Nat.le_refl _
  | cons hp _ ih => exact Nat.le_trans hp.next_le_next ih

/-- What holds of the nodes before a run, and of an expansion when it holds of the instruction that
is replaced, holds of the nodes after it. -/
theorem forall_mem {P : Node → Prop} (h : Runs ps ns s out s') (hns : ∀ n ∈ ns, P n)
    (hstep : ∀ i ids, i.Expandable → P (.instruction i) →
      ∀ j ∈ i.expansion ids, P (.instruction j)) :
    ∀ m ∈ out, P m := by
  induction h with
  | nil ns s => exact hns
  | cons hp _ ih => exact ih (hp.forall_mem hns fun i ids hi hpi _ => hstep i ids hi hpi)

/-- Nothing is left for the passes that ran: a pass replaces what it handles, and no expansion holds
a macro instruction. -/
theorem keeps (h : Runs ps ns s out s') : ∀ p ∈ ps, ∀ m ∈ out, p.Keeps m := by
  have hstep : ∀ (p : Pass) (i : Instruction) (ids : Nat → UInt32), i.Expandable →
      p.Keeps (.instruction i) → ∀ j ∈ i.expansion ids, p.Keeps (.instruction j) := by
    rintro p i ids hi _ j hj _ ⟨⟩
    exact (hi.emitted hj).not_handles p
  induction h with
  | nil ns s => simp
  | @cons q qs ns mid out s s₁ s' hq hqs ih =>
      intro p hp
      rcases List.mem_cons.mp hp with rfl | hp
      · exact hqs.forall_mem hq.keeps (hstep p)
      · exact ih p hp

end Runs

/-- Passes with nothing to replace change nothing. -/
theorem runFrom_run_of_keeps (h : ∀ p ∈ ps, ∀ n ∈ ns, p.Keeps n) (s : Supply) :
    (run ps ns).runFrom s = (.ok ns, s) := by
  rw [runFrom_run_eq_ok]
  induction ps with
  | nil => exact .nil ns s
  | cons p ps ih =>
      exact .cons (.of_keeps (h p List.mem_cons_self) s)
        (ih fun q hq => h q (List.mem_cons_of_mem p hq))

end Pipeline

end MacroAsm
