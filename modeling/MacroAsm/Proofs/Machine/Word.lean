import MacroAsm.Proofs.Machine.Semantics
import Mathlib.Logic.Function.Basic

/-!
# A machine with 64-bit words

Registers, temporaries and memory cells hold 64-bit words.  An operation of a width looks at the low
bits of its operands, and what it stores is extended with zeros.  A memory cell is known by the text
of its address; immediates and labels are not written to.

A macro instruction has a meaning of its own: `not` complements, `bmulio` multiplies and branches
when the product, as a signed number, is not one of 32 bits, and a bit test asks for the sign or for
zero.  The expansions compute these meanings, so the machine is faithful.  They compute them from
the plain instructions alone: what is said of an expansion holds on every machine that knows the few
instructions it is made of, whatever else the machine does.

## Main definitions

* `Machine.Word.exec` — what each instruction does.
* `Machine.Word.LongArithmetic`, `Machine.Word.BitLogic` — machines that know the plain instructions
  of a multiplication, and those of a bit test.
* `Machine.Word.execPlain` — a machine that traps at macro instructions.

## Main statements

* `Machine.Word.sameEffect_mulOverflow`, `Machine.Word.sameEffect_testTwo` — what the expansions
  compute on every such machine.

* `Machine.Word.shifts_eq_iff` — a 64-bit number is one of 32 bits when its upper word repeats the
  sign of its lower word.
* `Machine.Word.faithful` — the expansions compute what the macro instructions mean.
-/

namespace MacroAsm

/-- How many bits an operation of a width looks at. -/
def Width.bits : Width → Nat
  | byte => 8
  | int => 32
  | ptr => 64
  | quad => 64

/-- Whether bits meet the condition of a test. -/
def TestCondition.holds {n : Nat} (v : BitVec n) : TestCondition → Bool
  | sign => v.msb
  | zero => v == 0#n
  | nonZero => v != 0#n

/-- Whether two values compare as asked. -/
def Comparison.holds {n : Nat} (x y : BitVec n) : Comparison → Bool
  | equal => x == y
  | notEqual => x != y
  | above => y.ult x
  | aboveOrEqual => y.ule x
  | below => x.ult y
  | belowOrEqual => x.ule y
  | greater => y.slt x
  | greaterOrEqual => y.sle x
  | less => x.slt y
  | lessOrEqual => x.sle y

namespace Machine.Word

/-- A state whose memory has a word for each address. -/
abbrev WordState := State (BitVec 64) (String → BitVec 64)

/-- What each instruction does to words. -/
abbrev WordMachine := Semantics (BitVec 64) (String → BitVec 64)

/-- The word that an operand stands for. -/
def value (s : WordState) : Operand → BitVec 64
  | .register name => s.register name
  | .temporary t => s.temporary t.key
  | .immediate v => v.toBitVec
  | .label _ => 0
  | .address text => s.memory text

/-- Stores a word in the place that an operand stands for. -/
def write (s : WordState) (v : BitVec 64) : Operand → WordState
  | .register name => { s with register := Function.update s.register name v }
  | .temporary t => { s with temporary := Function.update s.temporary t.key v }
  | .address text => { s with memory := Function.update s.memory text v }
  | .immediate _ => s
  | .label _ => s

/-- Stores a word and falls through. -/
def assign (s : WordState) (v : BitVec 64) (o : Operand) : WordState × Outcome :=
  (write s v o, .next)

/-- Gives the answer of a test: by a branch to the target, or by storing it there as 1 or 0. -/
def answer (s : WordState) (form : Form) (target : Operand) (holds : Bool) : WordState × Outcome :=
  match form with
  | .branch => (s, if holds then .jump target.text else .next)
  | .set => assign s (if holds then 1 else 0) target

/-- The bits of a word that an operation of a width looks at. -/
def low (w : Width) (v : BitVec 64) : BitVec w.bits :=
  v.setWidth w.bits

/-- The 64-bit product of the low 32 bits of two words, as signed numbers. -/
def product (x y : BitVec 64) : BitVec 64 :=
  (x.setWidth 32).signExtend 64 * (y.setWidth 32).signExtend 64

/-- Multiplies into `b`, keeps the low 32 bits of the product there, and branches when the product
was not a signed number of 32 bits. -/
def multiply (s : WordState) (a b target : Operand) : WordState × Outcome :=
  let stored := write s (product (value s a) (value s b)) b
  let v := value stored b
  (write stored ((low .int v).setWidth 64) b,
    if -0x80000000 ≤ v.toInt ∧ v.toInt < 0x80000000 then .next else .jump target.text)

/-- What each instruction does.  An opcode with operands that it does not take does nothing, and nor
does one that is not known. -/
def exec : WordMachine := fun i s =>
  match i.opcode, i.operands with
  | .not w, [x] => assign s ((~~~low w (value s x)).setWidth 64) x
  | .xor w, [x, y] => assign s ((low w (value s x) ^^^ low w (value s y)).setWidth 64) y
  | .and w, [x, y, d] => assign s ((low w (value s x) &&& low w (value s y)).setWidth 64) d
  | .rightShift w, [x, n, d] =>
    assign s (((low w (value s x)).sshiftRight (value s n).toNat).setWidth 64) d
  | .signedMulLong, [x, y, d] => assign s (product (value s x) (value s y)) d
  | .zeroExtendIntToPtr, [x, d] => assign s ((low .int (value s x)).setWidth 64) d
  | .branchMulOverflow, [a, b, target] => multiply s a b target
  | .bitTest form w condition, [v, target] =>
    answer s form target (condition.holds (low w (value s v)))
  | .bitTest form w condition, [x, y, target] =>
    answer s form target (condition.holds (low w (value s x) &&& low w (value s y)))
  | .compare form w comparison, [x, y, target] =>
    answer s form target (comparison.holds (low w (value s x)) (low w (value s y)))
  | _, _ => (s, .next)

/-! ## Reading and writing -/

variable {s t : WordState} {F : Set (RegisterClass × UInt32)} {o : Operand}

theorem value_congr (h : AgreeOff F s t) (ho : ∀ r, o = .temporary r → r.key ∉ F) :
    value s o = value t o := by
  cases o with
  | register name => exact congrFun h.register name
  | temporary r => exact h.temporary r.key (ho r rfl)
  | immediate v => rfl
  | label name => rfl
  | address text => exact congrFun h.memory text

theorem agreeOff_write (h : AgreeOff F s t) (v : BitVec 64) (o : Operand) :
    AgreeOff F (write s v o) (write t v o) := by
  cases o with
  | register name => exact ⟨by simp [write, h.register], h.memory, h.temporary⟩
  | temporary r =>
      refine ⟨h.register, h.memory, ?_⟩
      intro key hkey
      by_cases heq : key = r.key
      · simp [write, heq]
      · simp [write, heq, h.temporary key hkey]
  | immediate v => exact h
  | label name => exact h
  | address text => exact ⟨h.register, by simp [write, h.memory], h.temporary⟩

theorem sameEffect_assign (h : AgreeOff F s t) (v : BitVec 64) (o : Operand) :
    SameEffect F (assign s v o) (assign t v o) :=
  ⟨rfl, agreeOff_write h v o⟩

theorem sameEffect_answer (h : AgreeOff F s t) (form : Form) (target : Operand) (holds : Bool) :
    SameEffect F (answer s form target holds) (answer t form target holds) := by
  cases form with
  | branch => exact ⟨rfl, h⟩
  | set => exact sameEffect_assign h _ target

theorem sameEffect_multiply (h : AgreeOff F s t) {a b : Operand} (target : Operand)
    (ha : value s a = value t a) (hb : value s b = value t b)
    (hkey : ∀ r, b = .temporary r → r.key ∉ F) :
    SameEffect F (multiply s a b target) (multiply t a b target) := by
  simp only [multiply, ha, hb]
  have hstored := agreeOff_write h (product (value t a) (value t b)) b
  rw [value_congr hstored hkey]
  exact ⟨rfl, agreeOff_write hstored _ b⟩

theorem agreeOff_write_temporary (s : WordState) (v : BitVec 64) {r : Temporary} (hr : r.key ∈ F) :
    AgreeOff F (write s v (.temporary r)) s := by
  refine ⟨rfl, rfl, ?_⟩
  intro key hkey
  have hne : key ≠ r.key := fun heq => hkey (heq ▸ hr)
  simp [write, hne]

@[simp] theorem value_write_temporary (s : WordState) (v : BitVec 64) (r : Temporary) :
    value (write s v (.temporary r)) (.temporary r) = v := by
  simp [value, write]

theorem temporary_write {key : RegisterClass × UInt32} (s : WordState) (v : BitVec 64)
    (ho : ∀ r, o = .temporary r → r.key ≠ key) :
    (write s v o).temporary key = s.temporary key := by
  cases o with
  | temporary r => simp [write, (ho r rfl).symm]
  | register name => rfl
  | immediate v => rfl
  | label name => rfl
  | address text => rfl

/-- An instruction depends on the temporaries it names only. -/
theorem sameEffect_exec (i : Instruction) (h : AgreeOff i.keysᶜ s t) :
    SameEffect i.keysᶜ (exec i s) (exec i t) := by
  have hkey : ∀ o ∈ i.operands, ∀ r, o = .temporary r → r.key ∉ i.keysᶜ := by
    rintro o ho r rfl
    simpa using Instruction.key_mem_keys ho
  have hvalue : ∀ o ∈ i.operands, value s o = value t o :=
    fun o ho => value_congr h (hkey o ho)
  unfold exec
  split
  case h_11 => exact ⟨rfl, h⟩
  all_goals
    rename_i hoperands
    rw [hoperands] at hvalue hkey
    simp only [List.mem_cons, List.not_mem_nil, or_false, forall_eq_or_imp, forall_eq] at hvalue
  case h_7 =>
    exact sameEffect_multiply h _ hvalue.1 hvalue.2.1 (hkey _ (by simp))
  all_goals simp only [hvalue]
  case h_8 | h_9 | h_10 => exact sameEffect_answer h _ _ _
  all_goals exact sameEffect_assign h _ _

theorem temporary_assign {key : RegisterClass × UInt32} (s : WordState) (v : BitVec 64)
    (ho : ∀ r, o = .temporary r → r.key ≠ key) :
    (assign s v o).1.temporary key = s.temporary key :=
  temporary_write s v ho

theorem temporary_answer {key : RegisterClass × UInt32} (s : WordState) (form : Form) (holds : Bool)
    (ho : ∀ r, o = .temporary r → r.key ≠ key) :
    (answer s form o holds).1.temporary key = s.temporary key := by
  cases form with
  | branch => rfl
  | set => exact temporary_write s _ ho

/-- An instruction changes no temporary that it does not name. -/
theorem temporary_exec (i : Instruction) (s : WordState) {key : RegisterClass × UInt32}
    (h : key ∉ i.keys) : (exec i s).1.temporary key = s.temporary key := by
  have hkey : ∀ o ∈ i.operands, ∀ r, o = .temporary r → r.key ≠ key := by
    rintro o ho r rfl rfl
    exact h (Instruction.key_mem_keys ho)
  unfold exec
  split
  case h_11 => rfl
  all_goals
    rename_i hoperands
    rw [hoperands] at hkey
  case h_7 a b target _ =>
    have hb := hkey b (by simp)
    simp only [multiply, temporary_write _ _ hb]
  case h_8 | h_9 | h_10 => exact temporary_answer s _ _ (hkey _ (by simp))
  all_goals exact temporary_assign s _ (hkey _ (by simp))

/-! ## Bits -/

theorem low_neg_one (w : Width) : low w (-1 : Int64).toBitVec = BitVec.allOnes w.bits := by
  cases w <;> decide

theorem low_zero (w : Width) : low w (0 : Int64).toBitVec = 0#w.bits := by
  cases w <;> decide

/-- A comparison with zero answers the condition of a test. -/
theorem holds_comparisonOf {n : Nat} (v : BitVec n) (condition : TestCondition) :
    (Opcode.comparisonOf condition).holds v 0#n = condition.holds v := by
  cases condition with
  | sign => exact BitVec.slt_zero_eq_msb
  | zero => rfl
  | nonZero => rfl

/-- The bits of a test are among those that its mask keeps. -/
theorem low_mask {w m : Width} (h : w.bits ≤ m.bits) (x y : BitVec 64) :
    low w ((low m x &&& low m y).setWidth 64) = low w x &&& low w y := by
  have hm : m.bits ≤ 64 := by cases m <;> decide
  ext k hk
  have hkm : k < m.bits := by omega
  have hk64 : k < 64 := by omega
  simp [low, hkm, hk64]

theorem setWidth_sshiftRight_low_ptr (v : BitVec 64) (n : Nat) :
    ((low .ptr v).sshiftRight n).setWidth 64 = v.sshiftRight n := by
  change ((v.setWidth 64).sshiftRight n).setWidth 64 = v.sshiftRight n
  rw [BitVec.setWidth_eq, BitVec.setWidth_eq]

theorem low_setWidth (w : Width) (v : BitVec w.bits) : low w (v.setWidth 64) = v := by
  have hw : w.bits ≤ 64 := by cases w <;> decide
  ext k hk
  have hk64 : k < 64 := by omega
  simp [low, hk, hk64]

theorem toInt_low_int (v : BitVec 64) : (low .int v).toInt = v.toInt.bmod 0x100000000 := by
  rw [low, Width.bits, BitVec.toInt_setWidth, BitVec.toInt_eq_toNat_bmod v,
    Int.bmod_bmod_of_dvd (by decide)]

/-- A 64-bit number is one of 32 bits when its upper word repeats the sign of its lower word. -/
theorem shifts_eq_iff (v : BitVec 64) :
    low .int (v.sshiftRight 32) = (low .int v).sshiftRight 31 ↔
      -0x80000000 ≤ v.toInt ∧ v.toInt < 0x80000000 := by
  have hlow : -2 ^ 63 ≤ v.toInt := v.le_toInt
  have hhigh : v.toInt < 2 ^ 63 := v.toInt_lt
  rw [← BitVec.toInt_inj, toInt_low_int, BitVec.toInt_sshiftRight, BitVec.toInt_sshiftRight,
    toInt_low_int]
  generalize v.toInt = u at hlow hhigh
  simp only [Int.shiftRight_eq_div_pow, Int.bmod_def]
  split <;> split <;> omega

/-! ## Plain instructions -/

/-- A machine that multiplies, shifts, extends and compares words.  Nothing is said of any other
instruction. -/
structure LongArithmetic (m : WordMachine) : Prop where
  multiply : ∀ x y d origin s,
    m ⟨.signedMulLong, [x, y, d], origin⟩ s = assign s (product (value s x) (value s y)) d
  shiftLong : ∀ x n d origin s,
    m ⟨.rightShift .ptr, [x, n, d], origin⟩ s =
      assign s ((value s x).sshiftRight (value s n).toNat) d
  shift : ∀ x n d origin s,
    m ⟨.rightShift .int, [x, n, d], origin⟩ s =
      assign s (((low .int (value s x)).sshiftRight (value s n).toNat).setWidth 64) d
  extend : ∀ x d origin s,
    m ⟨.zeroExtendIntToPtr, [x, d], origin⟩ s = assign s ((low .int (value s x)).setWidth 64) d
  branchNotEqual : ∀ x y target origin s,
    m ⟨.compare .branch .int .notEqual, [x, y, target], origin⟩ s =
      (s, if low .int (value s x) = low .int (value s y) then .next else .jump target.text)

/-- A machine that masks words, at 32 bits or more, and compares them by `less`, `equal` and
`notEqual`.  Nothing is said of any other instruction. -/
structure BitLogic (m : WordMachine) : Prop where
  mask : ∀ w ≠ .byte, ∀ x y d origin s,
    m ⟨.and w, [x, y, d], origin⟩ s =
      assign s ((low w (value s x) &&& low w (value s y)).setWidth 64) d
  compare : ∀ form w, ∀ c ∈ [Comparison.less, .equal, .notEqual], ∀ x y target origin s,
    m ⟨.compare form w c, [x, y, target], origin⟩ s =
      answer s form target (c.holds (low w (value s x)) (low w (value s y)))

/-- The machine without macro instructions: at one of these, or at one that is not known, it
traps. -/
def execPlain : WordMachine := fun i s =>
  match i.opcode with
  | .not _ | .branchMulOverflow | .bitTest _ _ _ | .other _ => (s, .jump "trap")
  | _ => exec i s

theorem longArithmetic_exec : LongArithmetic exec where
  multiply _ _ _ _ _ := rfl
  shiftLong x n d origin s := by simp only [exec, setWidth_sshiftRight_low_ptr]
  shift _ _ _ _ _ := rfl
  extend _ _ _ _ := rfl
  branchNotEqual x y target origin s := by
    simp only [exec, answer, Comparison.holds, bne_iff_ne, ne_eq, ite_not]

theorem bitLogic_exec : BitLogic exec where
  mask _ _ _ _ _ _ _ := rfl
  compare _ _ _ _ _ _ _ _ _ := rfl

theorem longArithmetic_execPlain : LongArithmetic execPlain where
  multiply := longArithmetic_exec.multiply
  shiftLong := longArithmetic_exec.shiftLong
  shift := longArithmetic_exec.shift
  extend := longArithmetic_exec.extend
  branchNotEqual := longArithmetic_exec.branchNotEqual

theorem bitLogic_execPlain : BitLogic execPlain where
  mask := bitLogic_exec.mask
  compare := bitLogic_exec.compare

/-! ## What the expansions compute -/

variable {m : WordMachine} {origin : Origin} {ids : Nat → UInt32}

theorem execAll_expansion_not (w : Width) (x : Operand) (s : WordState) :
    execAll exec (Instruction.expansion ⟨.not w, [x], origin⟩ ids) s =
      exec ⟨.not w, [x], origin⟩ s := by
  have hones : low w (value s (.immediate (-1))) = BitVec.allOnes w.bits := low_neg_one w
  simp only [Instruction.expansion, execAll_singleton, Instruction.replace, exec, hones,
    BitVec.allOnes_xor]

/-- A comparison with zero answers a test of one value. -/
theorem BitLogic.zeroCompareOf (hm : BitLogic m) (s : WordState) (form : Form) (w : Width)
    (condition : TestCondition) (v target : Operand) :
    m ⟨.zeroCompareOf form w condition, [v, .immediate 0, target], origin⟩ s =
      answer s form target (condition.holds (low w (value s v))) := by
  have hzero : low w (value s (.immediate 0)) = 0#w.bits := low_zero w
  have hknown : Opcode.comparisonOf condition ∈ [Comparison.less, .equal, .notEqual] := by
    cases condition <;> decide
  rw [Opcode.zeroCompareOf, hm.compare form w _ hknown, hzero, holds_comparisonOf]

theorem execAll_expansion_testOne (hm : BitLogic m) (form : Form) (w : Width)
    (condition : TestCondition) (v target : Operand) (s : WordState) :
    execAll m (Instruction.expansion ⟨.bitTest form w condition, [v, target], origin⟩ ids) s =
      answer s form target (condition.holds (low w (value s v))) := by
  simp only [Instruction.expansion, execAll_singleton, Instruction.replace]
  rw [hm.zeroCompareOf]

theorem eq_immediate_of_isImmediate {v : Int64} (h : o.isImmediate v = true) :
    o = .immediate v := by
  cases o <;> simp_all [Operand.isImmediate, Operand.immediate?]

/-- The mask of a test is as wide as the test, but not narrower than 32 bits. -/
theorem maskOf_eq_and (w : Width) : Opcode.maskOf w = .and (if w = .byte then .int else w) := by
  cases w <;> rfl

/-- A mask and a comparison of the masked bits with zero answer a test of two values. -/
theorem sameEffect_mask_compare (hm : BitLogic m) (form : Form) (w : Width)
    (condition : TestCondition) (left right target : Operand) {masked : Temporary}
    (hmasked : masked.key ∈ F) (s : WordState) :
    SameEffect F
      (execAll m
        [⟨.maskOf w, [left, right, .temporary masked], origin⟩,
          ⟨.zeroCompareOf form w condition, [.temporary masked, .immediate 0, target], origin⟩] s)
      (answer s form target
        (condition.holds (low w (value s left) &&& low w (value s right)))) := by
  let w' : Width := if w = .byte then .int else w
  have hwide : w' ≠ .byte := by cases w <;> decide
  have hbits : w.bits ≤ w'.bits := by cases w <;> decide
  have hfirst : m ⟨.maskOf w, [left, right, .temporary masked], origin⟩ s =
      (write s ((low w' (value s left) &&& low w' (value s right)).setWidth 64)
        (.temporary masked), .next) := by
    rw [maskOf_eq_and]
    exact hm.mask w' hwide left right _ origin s
  rw [execAll_cons_of_next hfirst, execAll_singleton, hm.zeroCompareOf, value_write_temporary,
    low_mask hbits]
  exact sameEffect_answer (agreeOff_write_temporary s _ hmasked) form target _

/-- A test of two values, with a mask or, when one of them is all ones, without. -/
theorem sameEffect_testTwo (hm : BitLogic m) (form : Form) (w : Width) (condition : TestCondition)
    (left right target : Operand) (s : WordState)
    (hF : ∀ k < Instruction.demand ⟨.bitTest form w condition, [left, right, target], origin⟩,
      (.general, ids k) ∈ F) :
    SameEffect F
      (execAll m
        (Instruction.expansion ⟨.bitTest form w condition, [left, right, target], origin⟩ ids) s)
      (answer s form target
        (condition.holds (low w (value s left) &&& low w (value s right)))) := by
  have hones : low w (value s (.immediate (-1))) = BitVec.allOnes w.bits := low_neg_one w
  by_cases hleft : left.isImmediate (-1) = true
  · obtain rfl := eq_immediate_of_isImmediate hleft
    simp only [Instruction.expansion, hleft, if_true, execAll_singleton, Instruction.replace]
    rw [hm.zeroCompareOf, hones, BitVec.allOnes_and]
    exact .refl F _
  by_cases hright : right.isImmediate (-1) = true
  · obtain rfl := eq_immediate_of_isImmediate hright
    simp only [Instruction.expansion, hleft, hright, if_false, if_true, execAll_singleton,
      Instruction.replace, Bool.false_eq_true]
    rw [hm.zeroCompareOf, hones, BitVec.and_allOnes]
    exact .refl F _
  simp only [Instruction.expansion, hleft, hright, if_false, Bool.false_eq_true,
    Instruction.replace]
  exact sameEffect_mask_compare hm form w condition left right target
    (hF 0 (by simp [Instruction.demand, hleft, hright])) s

/-- A multiplication with a check: the comparison of the upper word with the sign of the lower one
finds the products that are not numbers of 32 bits. -/
theorem sameEffect_mulOverflow (hm : LongArithmetic m) (a b target : Operand) (s : WordState)
    (hids : ids 0 ≠ ids 1) (hF : ∀ k < 2, (.general, ids k) ∈ F)
    (hb : ∀ r, b = .temporary r → r.key ∉ F) :
    SameEffect F
      (execAll m (Instruction.expansion ⟨.branchMulOverflow, [a, b, target], origin⟩ ids) s)
      (multiply s a b target) := by
  let upper : Temporary := ⟨ids 0, .general, origin⟩
  let sign : Temporary := ⟨ids 1, .general, origin⟩
  have hupper : upper.key ∈ F := hF 0 (by decide)
  have hsign : sign.key ∈ F := hF 1 (by decide)
  -- the states after each of the first four instructions
  let s₁ := write s (product (value s a) (value s b)) b
  let v := value s₁ b
  let s₂ := write s₁ (v.sshiftRight 32) (.temporary upper)
  let s₃ := write s₂ (((low .int v).sshiftRight 31).setWidth 64) (.temporary sign)
  let s₄ := write s₃ ((low .int v).setWidth 64) b
  have hs₂ : AgreeOff F s₂ s₁ := agreeOff_write_temporary s₁ _ hupper
  have hs₃ : AgreeOff F s₃ s₁ := (agreeOff_write_temporary s₂ _ hsign).trans hs₂
  have hv₂ : value s₂ b = v := value_congr hs₂ hb
  have hv₃ : value s₃ b = v := value_congr hs₃ hb
  have h₁ : m ⟨.signedMulLong, [a, b, b], origin⟩ s = (s₁, .next) := hm.multiply a b b origin s
  have h₂ : m ⟨.rightShift .ptr, [b, .immediate 32, .temporary upper], origin⟩ s₁ =
      (s₂, .next) := hm.shiftLong b (.immediate 32) (.temporary upper) origin s₁
  have h₃ : m ⟨.rightShift .int, [b, .immediate 31, .temporary sign], origin⟩ s₂ =
      (s₃, .next) := by
    rw [hm.shift, hv₂]
    rfl
  have h₄ : m ⟨.zeroExtendIntToPtr, [b, b], origin⟩ s₃ = (s₄, .next) := by
    rw [hm.extend, hv₃]
    rfl
  have hx : value s₄ (.temporary upper) = v.sshiftRight 32 := by
    have hne : upper.key ≠ sign.key := fun heq => hids (congrArg Prod.snd heq)
    have hkeep : s₄.temporary upper.key = s₃.temporary upper.key :=
      temporary_write s₃ _ fun r hr heq => hb r hr (heq ▸ hupper)
    rw [value, hkeep, temporary_write s₂ _ fun r hr => by
      obtain rfl := Operand.temporary.inj hr
      exact hne.symm]
    exact value_write_temporary s₁ _ upper
  have hy : value s₄ (.temporary sign) = ((low .int v).sshiftRight 31).setWidth 64 := by
    have hkeep : s₄.temporary sign.key = s₃.temporary sign.key :=
      temporary_write s₃ _ fun r hr heq => hb r hr (heq ▸ hsign)
    rw [value, hkeep]
    exact value_write_temporary s₂ _ sign
  have h₅ : m ⟨.compare .branch .int .notEqual, [.temporary upper, .temporary sign, target],
      origin⟩ s₄ =
        (s₄,
          if -0x80000000 ≤ v.toInt ∧ v.toInt < 0x80000000 then .next
          else .jump target.text) := by
    rw [hm.branchNotEqual, hx, hy, low_setWidth, if_congr (shifts_eq_iff v) rfl rfl]
  simp only [Instruction.expansion, Instruction.replace]
  rw [execAll_cons_of_next h₁, execAll_cons_of_next h₂, execAll_cons_of_next h₃,
    execAll_cons_of_next h₄, execAll_singleton, h₅]
  exact ⟨rfl, agreeOff_write hs₃ _ b⟩

/-- The machine is faithful: the expansions compute what the macro instructions mean. -/
theorem faithful : Faithful exec where
  reads i _ _ h := sameEffect_exec i h
  writes i s _ h := temporary_exec i s h
  expands := by
    intro i hi ids hinj hids s
    cases hi with
    | not w x origin =>
        rw [execAll_expansion_not]
        exact .refl _ _
    | mulOverflow a b target origin =>
        refine sameEffect_mulOverflow longArithmetic_exec a b target s ?_ ?_ ?_
        · intro heq
          exact absurd (hinj Nat.zero_lt_two Nat.one_lt_two heq) Nat.zero_ne_one
        · intro k hk
          exact ⟨k, hk, rfl⟩
        · rintro r rfl ⟨k, hk, heq⟩
          exact hids k hk (heq ▸ Instruction.key_mem_keys (by simp))
    | testOne form w condition v target origin =>
        rw [execAll_expansion_testOne bitLogic_exec]
        exact .refl _ _
    | testTwo form w condition left right target origin =>
        refine sameEffect_testTwo bitLogic_exec form w condition left right target s ?_
        intro k hk
        exact ⟨k, hk, rfl⟩

end Machine.Word

end MacroAsm
