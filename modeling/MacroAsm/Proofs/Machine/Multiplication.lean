import MacroAsm.Proofs.Machine.Word
import Mathlib.Algebra.Group.Int.Defs

/-!
# Multiplication with an overflow branch

The expansion of `bmulio a, b, target` on machines with 64-bit words.  The long product of two
numbers of 32 bits is exact, so comparing its upper word with the sign of its lower word decides
whether the product of the two numbers, as integers, is a number of 32 bits.  The machine need not
know `bmulio` itself, but the five plain instructions that replace it.

## Main definitions

* `Operand.IsRegister` — the operands that a multiplication can store to.
* `Machine.Word.int32` — the signed number in the low 32 bits of an operand.

## Main statements

* `Machine.Word.toInt_product` — the long product is exact.
* `Machine.Word.multiplies_of_expand` — what the expansion of `bmulio` computes.
-/

namespace MacroAsm

/-- A machine register or a temporary. -/
inductive Operand.IsRegister : Operand → Prop
  | register (name : String) : IsRegister (.register name)
  | temporary (t : Temporary) : IsRegister (.temporary t)

namespace Machine.Word

/-- The signed number in the low 32 bits of an operand. -/
def int32 (s : WordState) (o : Operand) : Int :=
  ((value s o).setWidth 32).toInt

/-! ## Storing in a register -/

variable {b : Operand}

theorem value_write_self (hb : b.IsRegister) (s : WordState) (v : BitVec 64) :
    value (write s v b) b = v := by
  cases hb with
  | register name => simp [value, write]
  | temporary t => simp [value, write]

theorem write_write_self (hb : b.IsRegister) (s : WordState) (v w : BitVec 64) :
    write (write s v b) w b = write s w b := by
  cases hb with
  | register name => simp [write]
  | temporary t => simp [write]

/-! ## The long product -/

/-- The product of two numbers of 32 bits is one of 64 bits. -/
theorem toInt_product (s : WordState) (a b : Operand) :
    (product (value s a) (value s b)).toInt = int32 s a * int32 s b := by
  have hlow : -2 ^ 62 ≤ int32 s a * int32 s b := BitVec.le_toInt_mul_toInt
  have hhigh : int32 s a * int32 s b ≤ 2 ^ 62 := BitVec.toInt_mul_toInt_le
  have hextend : ∀ v : BitVec 32, (v.signExtend 64).toInt = v.toInt :=
    fun v => BitVec.toInt_signExtend_of_le (by decide)
  rw [product, BitVec.toInt_mul, hextend, hextend]
  change Int.bmod (int32 s a * int32 s b) _ = _
  exact Int.bmod_eq_of_le (by omega) (by omega)

theorem setWidth_low_int (v : BitVec 64) :
    (low .int v).setWidth 64 = (BitVec.ofInt 32 v.toInt).setWidth 64 := by
  have hlow : v.setWidth 32 = BitVec.ofInt 32 v.toInt := by
    rw [← BitVec.toInt_inj, BitVec.toInt_ofInt]
    exact toInt_low_int v
  exact congrArg (BitVec.setWidth 64) hlow

/-- A multiplication into a register keeps the low 32 bits of the exact product there, and branches
when the product is not a number of 32 bits. -/
theorem multiply_eq (hb : b.IsRegister) (s : WordState) (a target : Operand) :
    multiply s a b target =
      (write s ((BitVec.ofInt 32 (int32 s a * int32 s b)).setWidth 64) b,
        if -2 ^ 31 ≤ int32 s a * int32 s b ∧ int32 s a * int32 s b < 2 ^ 31 then .next
        else .jump target.text) := by
  simp only [multiply, value_write_self hb, write_write_self hb, setWidth_low_int, toInt_product]
  rfl

/-! ## The expansion -/

/-- **Multiplication with an overflow branch.**  With two numbers left in a supply above the
temporaries of `bmulio a, b, target`, the instruction becomes the five plain ones of long
arithmetic.  On every machine that knows these, whatever it does with others, a run of them from any
state branches exactly when the product of the signed low words of `a` and `b` is not a number of 32
bits.  It leaves the low 32 bits of that product in `b`, extended with zeros, and changes nothing
else but the two temporaries that were taken. -/
theorem multiplies_of_expand {a target : Operand} {origin : Origin} {supply : Supply}
    (hb : b.IsRegister)
    (hids : ∀ t ∈ (Instruction.mk .branchMulOverflow [a, b, target] origin).temporaries,
      t.id.toNat < supply.next)
    (hleft : supply.next + 2 ≤ Supply.capacity) :
    ∃ is, (Pass.mulOverflow.expand ⟨.branchMulOverflow, [a, b, target], origin⟩).runFrom supply =
        (.ok is, supply.skip 2 hleft) ∧
      is.map Instruction.opcode =
        [.signedMulLong, .rightShift .ptr, .rightShift .int, .zeroExtendIntToPtr,
          .compare .branch .int .notEqual] ∧
      ∀ m : WordMachine, LongArithmetic m → ∀ s : WordState, ∃ s',
        execAll m is s =
          (s',
            if -2 ^ 31 ≤ int32 s a * int32 s b ∧ int32 s a * int32 s b < 2 ^ 31 then .next
            else .jump target.text) ∧
        value s' b = (BitVec.ofInt 32 (int32 s a * int32 s b)).setWidth 64 ∧
        AgreeOff (nextKeys supply 2) s' (write s (value s' b) b) := by
  let i : Instruction := ⟨.branchMulOverflow, [a, b, target], origin⟩
  have hexpand : (Pass.mulOverflow.expand i).runFrom supply =
      (.ok (i.expansion supply.upcoming), supply.skip 2 hleft) :=
    (Pass.runFrom_expand_eq_ok rfl).mpr ⟨.mulOverflow a b target origin, hleft, rfl, rfl⟩
  have hfresh : ∀ r, b = .temporary r → r.key ∉ nextKeys supply 2 := by
    rintro r rfl
    exact notMem_nextKeys hleft (hids r (List.mem_filterMap.mpr ⟨.temporary r, by simp, rfl⟩))
  have hdistinct : supply.upcoming 0 ≠ supply.upcoming 1 := by
    intro heq
    exact absurd (injOn_upcoming hleft Nat.zero_lt_two Nat.one_lt_two heq) Nat.zero_ne_one
  refine ⟨i.expansion supply.upcoming, hexpand, rfl, ?_⟩
  intro m hm s
  obtain ⟨houtcome, hagree⟩ : SameEffect (nextKeys supply 2)
      (execAll m (i.expansion supply.upcoming) s) (multiply s a b target) :=
    sameEffect_mulOverflow hm a b target s hdistinct (fun k hk => ⟨k, hk, rfl⟩) hfresh
  rw [multiply_eq hb] at houtcome hagree
  have hvalue := value_congr hagree hfresh
  rw [value_write_self hb] at hvalue
  refine ⟨_, Prod.ext rfl houtcome, hvalue, ?_⟩
  rw [hvalue]
  exact hagree

/-- The least number of 32 bits times minus one is not a number of 32 bits; the first operand is an
immediate, and bits above the low word do not count.  The machine traps at `bmulio` itself. -/
theorem multiplies_of_expand_least :
    let b : Operand := .register "t1"
    let i : Instruction :=
      ⟨.branchMulOverflow, [.immediate (-1), b, .label ".overflow"], .synthetic⟩
    let s : WordState := ⟨fun _ => 0x1234567880000000, fun _ => 7, fun _ => 9⟩
    execPlain i s = (s, .jump "trap") ∧
      ∃ is, (Pass.mulOverflow.expand i).runFrom (.above none) =
          (.ok is, (Supply.above none).skip 2 (by decide)) ∧
        is.map Instruction.opcode =
          [.signedMulLong, .rightShift .ptr, .rightShift .int, .zeroExtendIntToPtr,
            .compare .branch .int .notEqual] ∧
        ∃ s', execAll execPlain is s = (s', .jump ".overflow") ∧ value s' b = 0x80000000 ∧
          s'.register "t2" = s.register "t2" ∧ s'.memory = s.memory := by
  intro b i s
  obtain ⟨is, hexpand, hopcodes, hrun⟩ :=
    @multiplies_of_expand b (.immediate (-1)) (.label ".overflow") .synthetic (.above none)
      (.register "t1") (by simp [Instruction.temporaries, b, Operand.temporary?]) (by decide)
  obtain ⟨s', hexec, hvalue, hagree⟩ := hrun execPlain longArithmetic_execPlain s
  have hproduct : int32 s (.immediate (-1)) * int32 s b = 2 ^ 31 := by decide
  rw [hproduct] at hexec hvalue
  exact ⟨rfl, is, hexpand, hopcodes, s', hexec, hvalue, congrFun hagree.register "t2",
    hagree.memory⟩

end Machine.Word

end MacroAsm
