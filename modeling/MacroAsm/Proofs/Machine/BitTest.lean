import MacroAsm.Proofs.Machine.Multiplication
import Mathlib.Data.List.Basic

/-!
# Bit tests

The expansion of a bit test on machines with 64-bit words.  A test looks at the low bits of one
value, or at those that two values have in common.  The mask is never narrower than the test, and
the comparison that follows it is exactly as wide, so bits above the width of the test do not count.
Masking with all ones would change nothing, and is left out.  The machine need not know the test
itself, but masks and comparisons.

## Main definitions

* `Machine.Word.tested` — the bits that a test looks at.

## Main statements

* `Machine.Word.sameEffect_expansion_bitTest` — the expansion gives the answer of the test.
* `Machine.Word.sameEffect_masked_allOnes` — so does masking where the expansion leaves it out.
* `Machine.Word.tests_of_expand` — what the expansion of a bit test computes.
-/

namespace MacroAsm.Machine.Word

/-- The bits that a test looks at: those of one value, or those that two values have in common. -/
def tested (s : WordState) (w : Width) : List Operand → BitVec w.bits
  | [x] => low w (value s x)
  | [x, y] => low w (value s x) &&& low w (value s y)
  | _ => 0#w.bits

variable {m : WordMachine} {i : Instruction} {form : Form} {w : Width} {condition : TestCondition}
  {values : List Operand} {target : Operand} {supply : Supply}

/-! ## The test -/

/-- A bit test has one value or two. -/
theorem bitTest_cases (hopcode : i.opcode = .bitTest form w condition)
    (hoperands : i.operands = values ++ [target])
    (hvalues : values.length = 1 ∨ values.length = 2) :
    (∃ x, values = [x] ∧ i = ⟨.bitTest form w condition, [x, target], i.origin⟩) ∨
      ∃ x y, values = [x, y] ∧ i = ⟨.bitTest form w condition, [x, y, target], i.origin⟩ := by
  obtain ⟨opcode, operands, origin⟩ := i
  subst hopcode hoperands
  rcases hvalues with hone | htwo
  · obtain ⟨x, rfl⟩ := List.length_eq_one_iff.mp hone
    exact .inl ⟨x, rfl, rfl⟩
  · obtain ⟨x, y, rfl⟩ := List.length_eq_two.mp htwo
    exact .inr ⟨x, y, rfl, rfl⟩

theorem expandable_bitTest (hopcode : i.opcode = .bitTest form w condition)
    (hoperands : i.operands = values ++ [target])
    (hvalues : values.length = 1 ∨ values.length = 2) : i.Expandable := by
  rcases bitTest_cases hopcode hoperands hvalues with ⟨x, -, hi⟩ | ⟨x, y, -, hi⟩
  · rw [hi]
    exact .testOne form w condition x target i.origin
  · rw [hi]
    exact .testTwo form w condition x y target i.origin

/-! ## The expansion -/

/-- A bit test becomes a comparison, and a mask before it when it takes a temporary. -/
theorem map_opcode_expansion (hopcode : i.opcode = .bitTest form w condition)
    (hoperands : i.operands = values ++ [target])
    (hvalues : values.length = 1 ∨ values.length = 2) (ids : Nat → UInt32) :
    (i.expansion ids).map Instruction.opcode =
      List.replicate i.demand (.maskOf w) ++ [.zeroCompareOf form w condition] := by
  rcases bitTest_cases hopcode hoperands hvalues with ⟨x, -, hi⟩ | ⟨x, y, -, hi⟩
  · rw [hi]
    rfl
  · rw [hi]
    by_cases hx : x.isImmediate (-1) = true
    · simp [Instruction.expansion, Instruction.demand, Instruction.replace, hx]
    · by_cases hy : y.isImmediate (-1) = true
      · simp [Instruction.expansion, Instruction.demand, Instruction.replace, hx, hy]
      · simp [Instruction.expansion, Instruction.demand, Instruction.replace, hx, hy]

/-- The expansion of a bit test gives the answer of the test. -/
theorem sameEffect_expansion_bitTest (hm : BitLogic m)
    (hopcode : i.opcode = .bitTest form w condition) (hoperands : i.operands = values ++ [target])
    (hvalues : values.length = 1 ∨ values.length = 2) {F : Set (RegisterClass × UInt32)}
    {ids : Nat → UInt32} (hF : ∀ k < i.demand, (.general, ids k) ∈ F) (s : WordState) :
    SameEffect F (execAll m (i.expansion ids) s)
      (answer s form target (condition.holds (tested s w values))) := by
  rcases bitTest_cases hopcode hoperands hvalues with ⟨x, rfl, hi⟩ | ⟨x, y, rfl, hi⟩
  · rw [hi, execAll_expansion_testOne hm]
    exact .refl F _
  · rw [hi] at hF ⊢
    exact sameEffect_testTwo hm form w condition x y target s hF

theorem demand_eq_zero_of_allOnes {left right : Operand}
    (hopcode : i.opcode = .bitTest form w condition)
    (hoperands : i.operands = [left, right, target])
    (hones : left = .immediate (-1) ∨ right = .immediate (-1)) : i.demand = 0 := by
  have himmediate : Operand.isImmediate (-1) (.immediate (-1)) = true := rfl
  rcases hones with rfl | rfl
  · simp [Instruction.demand, hopcode, hoperands, himmediate]
  · simp [Instruction.demand, hopcode, hoperands, himmediate]

/-- Where the expansion leaves the mask out, masking into any temporary gives the same answer. -/
theorem sameEffect_masked_allOnes (hm : BitLogic m) {left right : Operand}
    (hopcode : i.opcode = .bitTest form w condition)
    (hoperands : i.operands = [left, right, target])
    (hones : left = .immediate (-1) ∨ right = .immediate (-1)) (ids : Nat → UInt32)
    (masked : Temporary) (s : WordState) :
    SameEffect {masked.key}
      (execAll m
        [i.replace (.maskOf w) [left, right, .temporary masked],
          i.replace (.zeroCompareOf form w condition) [.temporary masked, .immediate 0, target]] s)
      (execAll m (i.expansion ids) s) := by
  have hnone : ∀ k < i.demand, (.general, ids k) ∈ ({masked.key} : Set _) := by
    rw [demand_eq_zero_of_allOnes hopcode hoperands hones]
    simp
  have hfast : SameEffect {masked.key} (execAll m (i.expansion ids) s)
      (answer s form target (condition.holds (tested s w [left, right]))) :=
    sameEffect_expansion_bitTest hm hopcode hoperands (.inr rfl) hnone s
  have hkey : masked.key ∈ ({masked.key} : Set (RegisterClass × UInt32)) := rfl
  refine SameEffect.trans ?_ hfast.symm
  exact sameEffect_mask_compare hm form w condition left right target hkey s

/-- **Bit tests.**  With the temporaries it asks for left in a supply above those of the
instruction, a bit test of one value or of two becomes a comparison of its own width, behind a mask
of that width, but of 32 bits for a byte, when it takes a temporary.  On every machine that knows
these plain instructions, whatever it does with others, a run of the expansion from any state
branches to the target, or stores one there, exactly when the tested bits meet the condition;
otherwise it falls through, or stores zero.  It changes nothing else but the temporary that was
taken, if there was one.  When one value, or both, is the immediate `-1`, the expansion is a single
comparison, and masking into any temporary before it would have given the same answer. -/
theorem tests_of_expand (hopcode : i.opcode = .bitTest form w condition)
    (hoperands : i.operands = values ++ [target])
    (hvalues : values.length = 1 ∨ values.length = 2)
    (hids : ∀ t ∈ i.temporaries, t.id.toNat < supply.next)
    (hleft : supply.next + i.demand ≤ Supply.capacity) :
    ∃ is, (Pass.bitTest.expand i).runFrom supply = (.ok is, supply.skip i.demand hleft) ∧
      is.map Instruction.opcode =
        List.replicate i.demand (.and (if w = .byte then .int else w)) ++
          [.compare form w (Opcode.comparisonOf condition)] ∧
      ∀ m : WordMachine, BitLogic m →
        (∀ s : WordState, ∃ s',
          execAll m is s =
            (s',
              if form = .branch ∧ condition.holds (tested s w values) = true then .jump target.text
              else .next) ∧
          (form = .branch → AgreeOff (nextKeys supply i.demand) s' s) ∧
          (form = .set →
            AgreeOff (nextKeys supply i.demand) s'
              (write s (if condition.holds (tested s w values) then 1 else 0) target) ∧
            (target.IsRegister →
              value s' target = if condition.holds (tested s w values) then 1 else 0))) ∧
        ∀ left right, values = [left, right] → left = .immediate (-1) ∨ right = .immediate (-1) →
          is.length = 1 ∧ ∀ (masked : Temporary) (s : WordState),
            SameEffect {masked.key}
              (execAll m
                [i.replace (.maskOf w) [left, right, .temporary masked],
                  i.replace (.zeroCompareOf form w condition)
                    [.temporary masked, .immediate 0, target]] s)
              (execAll m is s) := by
  have hi := expandable_bitTest hopcode hoperands hvalues
  have hhandles : Pass.bitTest.handles i.opcode = true := by
    rw [hopcode]
    rfl
  have hexpand : (Pass.bitTest.expand i).runFrom supply =
      (.ok (i.expansion supply.upcoming), supply.skip i.demand hleft) :=
    (Pass.runFrom_expand_eq_ok hhandles).mpr ⟨hi, hleft, rfl, rfl⟩
  have hopcodes := map_opcode_expansion hopcode hoperands hvalues supply.upcoming
  rw [maskOf_eq_and] at hopcodes
  refine ⟨i.expansion supply.upcoming, hexpand, hopcodes, ?_⟩
  intro m hm
  refine ⟨?_, ?_⟩
  · intro s
    have hF : ∀ k < i.demand, (.general, supply.upcoming k) ∈ nextKeys supply i.demand :=
      fun k hk => ⟨k, hk, rfl⟩
    obtain ⟨houtcome, hagree⟩ := sameEffect_expansion_bitTest hm hopcode hoperands hvalues hF s
    cases form with
    | branch =>
        refine ⟨_, Prod.ext rfl ?_, fun _ => hagree, by simp⟩
        simpa [answer] using houtcome
    | set =>
        refine ⟨_, Prod.ext rfl ?_, by simp, fun _ => ⟨hagree, ?_⟩⟩
        · simpa [answer, assign] using houtcome
        · intro htarget
          have hfresh : ∀ r, target = .temporary r → r.key ∉ nextKeys supply i.demand := by
            rintro r rfl
            refine notMem_nextKeys hleft (hids r (List.mem_filterMap.mpr ⟨.temporary r, ?_, rfl⟩))
            simp [hoperands]
          rw [value_congr hagree hfresh]
          exact value_write_self htarget s _
  · rintro left right rfl hones
    refine ⟨?_, sameEffect_masked_allOnes hm hopcode hoperands hones _⟩
    have hlength := congrArg List.length hopcodes
    simpa [demand_eq_zero_of_allOnes hopcode hoperands hones] using hlength

/-- The sign of a byte, stored over one of the two tested values; no wider test of these values
finds a sign.  The machine traps at the test itself. -/
theorem tests_of_expand_byte :
    let i : Instruction :=
      ⟨.bitTest .set .byte .sign,
        [.register "t0", .temporary ⟨4, .general, .synthetic⟩, .register "t0"], .synthetic⟩
    let s : WordState := ⟨fun _ => 0x12380, fun _ => 0x7f80, fun _ => 9⟩
    execPlain i s = (s, .jump "trap") ∧
      ∃ is, (Pass.bitTest.expand i).runFrom (.above (some 4)) =
          (.ok is, (Supply.above (some 4)).skip 1 (by decide)) ∧
        is.map Instruction.opcode = [.and .int, .compare .set .byte .less] ∧
        ∃ s', execAll execPlain is s = (s', .next) ∧ value s' (.register "t0") = 1 ∧
          s'.register "t1" = s.register "t1" ∧ s'.memory = s.memory ∧
          s'.temporary (.general, 4) = s.temporary (.general, 4) := by
  intro i s
  let values : List Operand := [.register "t0", .temporary ⟨4, .general, .synthetic⟩]
  have hoperands : i.operands = values ++ [.register "t0"] := rfl
  have hids : ∀ t ∈ i.temporaries, t.id.toNat < (Supply.above (some 4)).next := by
    decide
  obtain ⟨is, hexpand, hopcodes, hrun⟩ := tests_of_expand rfl hoperands (.inr rfl) hids (by decide)
  obtain ⟨s', hexec, -, hset⟩ := (hrun execPlain bitLogic_execPlain).1 s
  obtain ⟨hagree, hvalue⟩ := hset rfl
  have hmet : TestCondition.sign.holds (tested s .byte values) = true := by
    decide
  rw [hmet] at hvalue
  have hkept : (.general, 4) ∉ nextKeys (.above (some 4)) 1 :=
    notMem_nextKeys (t := ⟨4, .general, .synthetic⟩) (by decide) (by decide)
  exact ⟨rfl, is, hexpand, hopcodes, s', hexec, hvalue (.register "t0"),
    congrFun hagree.register "t1", hagree.memory, hagree.temporary _ hkept⟩

end MacroAsm.Machine.Word
