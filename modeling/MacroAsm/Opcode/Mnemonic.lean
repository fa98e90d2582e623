import MacroAsm.Opcode.Basic

/-!
# Mnemonics

How opcodes are spelled.  A mnemonic is a stem, a width letter and, for tests and comparisons, a
condition; reading one is looking it up among the spellings of the known opcodes.

Of the `not` opcodes only `noti` and `notp` are known by their spelling.  The byte and quad ones can
be built, and print like the others, but their spellings read as unknown names.

## Main definitions

* `Opcode.mnemonic` — the spelling of an opcode.
* `Opcode.known` — the opcodes that are recognised by their spelling.
* `Opcode.ofMnemonic` — the opcode a spelling stands for.
-/

namespace MacroAsm

namespace Width

/-- The letter that stands for a width in a mnemonic. -/
def letter : Width → Char
  | byte => 'b'
  | int => 'i'
  | ptr => 'p'
  | quad => 'q'

/-- The width that a letter stands for. -/
def ofLetter? : Char → Option Width
  | 'b' => some byte
  | 'i' => some int
  | 'p' => some ptr
  | 'q' => some quad
  | _ => none

@[simp] theorem ofLetter?_letter (w : Width) : ofLetter? w.letter = some w := by
  cases w <;> rfl

end Width

namespace TestCondition

/-- The end of a bit test's mnemonic. -/
def suffix : TestCondition → String
  | sign => "s"
  | zero => "z"
  | nonZero => "nz"

end TestCondition

namespace Comparison

/-- The end of a comparison's mnemonic. -/
def suffix : Comparison → String
  | equal => "eq"
  | notEqual => "neq"
  | above => "a"
  | aboveOrEqual => "aeq"
  | below => "b"
  | belowOrEqual => "beq"
  | greater => "gt"
  | greaterOrEqual => "gteq"
  | less => "lt"
  | lessOrEqual => "lteq"

end Comparison

namespace Form

/-- The start of a bit test's mnemonic. -/
def testStem : Form → String
  | branch => "bt"
  | set => "t"

/-- The start of a comparison's mnemonic. -/
def compareStem : Form → String
  | branch => "b"
  | set => "c"

end Form

namespace Opcode

/-- The spelling of an opcode. -/
def mnemonic : Opcode → String
  | not w => "not".push w.letter
  | xor w => "xor".push w.letter
  | and w => "and".push w.letter
  | rightShift w => "rshift".push w.letter
  | signedMulLong => "smulli"
  | zeroExtendIntToPtr => "zxi2p"
  | branchMulOverflow => "bmulio"
  | bitTest f w c => f.testStem.push w.letter ++ c.suffix
  | compare f w c => f.compareStem.push w.letter ++ c.suffix
  | other name => name

/-- The opcodes that are recognised by their spelling. -/
def known : List Opcode :=
  [not .int, not .ptr, signedMulLong, zeroExtendIntToPtr, branchMulOverflow] ++
    Width.all.map xor ++ Width.all.map and ++ Width.all.map rightShift ++
    Form.all.flatMap (fun f => Width.all.flatMap fun w => TestCondition.all.map (bitTest f w)) ++
    Form.all.flatMap (fun f => Width.all.flatMap fun w => Comparison.all.map (compare f w))

/-- The opcode that a spelling stands for; a spelling of no known opcode is a name of its own. -/
def ofMnemonic (m : String) : Opcode :=
  (known.find? (·.mnemonic == m)).getD (other m)

@[simp] theorem mnemonic_other (name : String) : mnemonic (other name) = name := rfl

/-- Reading a spelling and writing it again changes nothing. -/
@[simp] theorem mnemonic_ofMnemonic (m : String) : (ofMnemonic m).mnemonic = m := by
  unfold ofMnemonic
  cases h : known.find? (·.mnemonic == m) with
  | none => rfl
  | some o => simpa using List.find?_some h

end Opcode

end MacroAsm
