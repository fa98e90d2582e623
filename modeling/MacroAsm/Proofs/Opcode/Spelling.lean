import MacroAsm.Opcode.Mnemonic
import Mathlib.Data.List.Nodup
import Mathlib.Data.List.Pairwise

/-!
# Spellings that stand for one opcode

A spelling can also be read piece by piece: a stem tells the family, then comes a width letter and,
for tests and comparisons, a condition.  Stems are starts of one another (`b`, `bt`, `bmulio`), and
`b` is a width letter and a condition too, but the first two characters of a spelling already tell
its family.  So at most one family reads a text, whatever the order in which they are tried, and
looking a spelling up is reading it piece by piece.

## Main definitions

* `Opcode.Recognised` — the opcodes that their spelling stands for.
* `Opcode.Family` — opcodes whose spellings are read in one way.
* `Opcode.Sized`, `Opcode.Conditional` — what spellings without and with a condition are made of.
* `Opcode.scan?` — reading a spelling piece by piece, one family after the other.

## Main statements

* `Opcode.scan?_eq_some_iff` — what is read piece by piece is spelled so, and the converse.
* `Opcode.ofMnemonic_eq_scan?` — looking a spelling up is reading it piece by piece.
* `Opcode.ofMnemonic_mnemonic_eq_self_iff` — reading and writing are inverse on all opcodes but the
  two `not`s without a spelling of their own and the names that are spellings of other opcodes.
-/

namespace MacroAsm

/-! ## Letters and endings -/

theorem Width.mem_all (w : Width) : w ∈ all := by
  cases w <;> decide

theorem Form.mem_all (f : Form) : f ∈ all := by
  cases f <;> decide

theorem TestCondition.mem_all (c : TestCondition) : c ∈ all := by
  cases c <;> decide

theorem Comparison.mem_all (c : Comparison) : c ∈ all := by
  cases c <;> decide

theorem Width.ofLetter?_eq_some {c : Char} {w : Width} : ofLetter? c = some w ↔ c = w.letter := by
  constructor
  · intro h
    unfold ofLetter? at h
    split at h <;> cases h <;> rfl
  · rintro rfl
    exact ofLetter?_letter w

/-- Looking a value up finds the one entry that has it. -/
theorem find?_beq_eq_some_iff {α β : Type} [BEq β] [LawfulBEq β] {f : α → β} {l : List α}
    (hf : ∀ a ∈ l, ∀ a' ∈ l, f a = f a' → a = a') {a : α} {b : β} :
    l.find? (f · == b) = some a ↔ a ∈ l ∧ f a = b := by
  constructor
  · intro h
    exact ⟨List.mem_of_find?_eq_some h, by simpa using List.find?_some h⟩
  · rintro ⟨ha, rfl⟩
    have hsome : (l.find? (f · == f a)).isSome = true :=
      List.find?_isSome.mpr ⟨a, ha, by simp⟩
    obtain ⟨a', h'⟩ := Option.isSome_iff_exists.mp hsome
    have heq : f a' = f a := by simpa using List.find?_some h'
    rw [h', hf a' (List.mem_of_find?_eq_some h') a ha heq]

namespace Opcode

/-- An opcode that its spelling stands for: any of the known families, but for the `not` of a byte
and of a quad. -/
structure Recognised (o : Opcode) : Prop where
  isOther_eq : o.isOther = false
  ne_not_byte : o ≠ not .byte
  ne_not_quad : o ≠ not .quad

/-- The table of known opcodes holds the recognised ones. -/
theorem mem_known_iff {o : Opcode} : o ∈ known ↔ o.Recognised := by
  constructor
  · intro h
    have hall : known.all (fun o => !o.isOther && o ≠ not .byte && o ≠ not .quad) = true := by
      decide
    have ho := List.all_eq_true.mp hall o h
    simp only [ne_eq, decide_not, Bool.and_eq_true, Bool.not_eq_true', decide_eq_false_iff_not]
      at ho
    exact ⟨ho.1.1, ho.1.2, ho.2⟩
  · intro h
    cases o with
    | not w =>
        cases w with
        | byte => exact absurd rfl h.ne_not_byte
        | quad => exact absurd rfl h.ne_not_quad
        | int => simp [known]
        | ptr => simp [known]
    | other name => exact absurd h.isOther_eq (by simp)
    | signedMulLong => simp [known]
    | zeroExtendIntToPtr => simp [known]
    | branchMulOverflow => simp [known]
    | xor w => simp [known, w.mem_all]
    | and w => simp [known, w.mem_all]
    | rightShift w => simp [known, w.mem_all]
    | bitTest f w c => simp [known, f.mem_all, w.mem_all, c.mem_all]
    | compare f w c => simp [known, f.mem_all, w.mem_all, c.mem_all]

/-! ## Families -/

/-- Opcodes whose spellings are read in one way.  A family knows the first two characters that its
spellings can have. -/
structure Family where
  read? : List Char → Option Opcode
  starts : List (List Char)
  spelled : ∀ {cs o}, read? cs = some o → o.Recognised ∧ o.mnemonic.toList = cs
  start_mem : ∀ {cs o}, read? cs = some o → cs.take 2 ∈ starts

/-! ### Words of their own -/

/-- The opcodes whose spelling is a word of its own. -/
def words : List Opcode :=
  [not .int, not .ptr, signedMulLong, zeroExtendIntToPtr, branchMulOverflow]

/-- Reads a word of its own. -/
def readWord? (cs : List Char) : Option Opcode :=
  words.find? (·.mnemonic.toList == cs)

theorem readWord?_eq_some {cs : List Char} {o : Opcode} :
    readWord? cs = some o ↔ o ∈ words ∧ o.mnemonic.toList = cs := by
  have hnodup : (words.map fun o => o.mnemonic.toList).Nodup := by decide
  exact find?_beq_eq_some_iff fun a ha b hb heq => List.inj_on_of_nodup_map hnodup ha hb heq

/-- The words of their own. -/
def Family.word : Family where
  read? := readWord?
  starts := words.map fun o => o.mnemonic.toList.take 2
  spelled h := by
    obtain ⟨hmem, hcs⟩ := readWord?_eq_some.mp h
    have hknown : words.all (· ∈ known) = true := by decide
    exact ⟨mem_known_iff.mp (by simpa using List.all_eq_true.mp hknown _ hmem), hcs⟩
  start_mem h := by
    obtain ⟨hmem, rfl⟩ := readWord?_eq_some.mp h
    exact List.mem_map.mpr ⟨_, hmem, rfl⟩

theorem Family.read?_word {o : Opcode} (h : o ∈ words) : word.read? o.mnemonic.toList = some o :=
  readWord?_eq_some.mpr ⟨h, rfl⟩

/-! ### A stem and a width letter -/

/-- The spellings made of a stem and a width letter, and the opcodes that they stand for. -/
structure Sized where
  stem : String
  make : Width → Opcode
  recognised : ∀ w, (make w).Recognised
  mnemonic_make : ∀ w, (make w).mnemonic = stem.push w.letter
  two_le_length : 2 ≤ stem.toList.length

namespace Sized

variable (S : Sized)

/-- Reads the stem with a width letter behind it and nothing else. -/
def read? (cs : List Char) : Option Opcode :=
  match S.stem.toList.isPrefixOf? cs with
  | some [letter] => (Width.ofLetter? letter).map S.make
  | _ => none

variable {S}

theorem read?_eq_some {cs : List Char} {o : Opcode} :
    S.read? cs = some o ↔ ∃ w, S.make w = o ∧ o.mnemonic.toList = cs := by
  constructor
  · intro h
    unfold read? at h
    split at h
    · rename_i letter hrest
      obtain ⟨w, hw, rfl⟩ := Option.map_eq_some_iff.mp h
      rw [Width.ofLetter?_eq_some.mp hw, List.isPrefixOf?_eq_some_iff_append_eq] at hrest
      exact ⟨w, rfl, by rw [S.mnemonic_make, String.toList_push, hrest]⟩
    · cases h
  · rintro ⟨w, rfl, rfl⟩
    have hrest : S.stem.toList.isPrefixOf? (S.make w).mnemonic.toList = some [w.letter] := by
      rw [List.isPrefixOf?_eq_some_iff_append_eq, S.mnemonic_make, String.toList_push]
    rw [read?, hrest]
    simp

variable (S)

/-- The family of these spellings. -/
def family : Family where
  read? := S.read?
  starts := [S.stem.toList.take 2]
  spelled h := by
    obtain ⟨w, rfl, hcs⟩ := read?_eq_some.mp h
    exact ⟨S.recognised w, hcs⟩
  start_mem h := by
    obtain ⟨w, rfl, rfl⟩ := read?_eq_some.mp h
    rw [S.mnemonic_make, String.toList_push, List.take_append_of_le_length S.two_le_length,
      List.mem_singleton]

theorem read?_family (w : Width) : S.family.read? (S.make w).mnemonic.toList = some (S.make w) :=
  read?_eq_some.mpr ⟨w, rfl, rfl⟩

end Sized

/-! ### A stem, a width letter and a condition -/

/-- The spellings made of a stem for each form, a width letter and the ending of a condition, and
the opcodes that they stand for.  The stems tell the forms apart and the endings the conditions. -/
structure Conditional (C : Type) where
  stem : Form → String
  conditions : List C
  suffix : C → String
  make : Form → Width → C → Opcode
  recognised : ∀ f w c, (make f w c).Recognised
  mnemonic_make : ∀ f w c, (make f w c).mnemonic = (stem f).push w.letter ++ suffix c
  one_le_length : ∀ f, 1 ≤ (stem f).toList.length
  not_isPrefix : ∀ rest, ¬(stem .branch).toList <+: (stem .set).toList ++ rest
  mem_conditions : ∀ c, c ∈ conditions
  nodup_suffix : (conditions.map suffix).Nodup

namespace Conditional

variable {C : Type} (S : Conditional C)

/-- The form that the stem of a text tells, and the text behind the stem; the stem of a branch is
looked for first. -/
def readForm? (cs : List Char) : Option (Form × List Char) :=
  match (S.stem .branch).toList.isPrefixOf? cs with
  | some rest => some (.branch, rest)
  | none => ((S.stem .set).toList.isPrefixOf? cs).map (.set, ·)

/-- Reads a stem, a width letter and the ending of a condition. -/
def read? (cs : List Char) : Option Opcode :=
  match S.readForm? cs with
  | some (form, letter :: ending) => do
    let width ← Width.ofLetter? letter
    let condition ← S.conditions.find? (fun c => (S.suffix c).toList == ending)
    return S.make form width condition
  | _ => none

variable {S}

theorem readForm?_eq_some {cs rest : List Char} {f : Form} :
    S.readForm? cs = some (f, rest) ↔ (S.stem f).toList ++ rest = cs := by
  unfold readForm?
  cases hbranch : (S.stem .branch).toList.isPrefixOf? cs with
  | some tail =>
      rw [List.isPrefixOf?_eq_some_iff_append_eq] at hbranch
      subst hbranch
      cases f with
      | branch => simp [eq_comm]
      | set =>
          -- a text with the stem of a branch does not have the other stem too
          refine iff_of_false (by simp) ?_
          intro h
          exact S.not_isPrefix rest ⟨tail, h.symm⟩
  | none =>
      cases f with
      | branch =>
          refine iff_of_false (by simp) ?_
          intro h
          rw [← List.isPrefixOf?_eq_some_iff_append_eq, hbranch] at h
          cases h
      | set => simp

theorem find?_suffix_eq_some {ending : List Char} {c : C} :
    S.conditions.find? (fun c => (S.suffix c).toList == ending) = some c ↔
      (S.suffix c).toList = ending := by
  rw [find?_beq_eq_some_iff, and_iff_right (S.mem_conditions c)]
  intro a ha b hb heq
  exact List.inj_on_of_nodup_map S.nodup_suffix ha hb (String.toList_inj.mp heq)

theorem read?_eq_some {cs : List Char} {o : Opcode} :
    S.read? cs = some o ↔ ∃ f w c, S.make f w c = o ∧ o.mnemonic.toList = cs := by
  unfold read?
  constructor
  · intro h
    split at h
    · rename_i f letter ending hform
      simp only [Option.bind_eq_bind, Option.bind_eq_some_iff, Width.ofLetter?_eq_some,
        find?_suffix_eq_some, Option.pure_def, Option.some.injEq] at h
      obtain ⟨w, rfl, c, rfl, rfl⟩ := h
      refine ⟨f, w, c, rfl, ?_⟩
      rw [S.mnemonic_make, ← readForm?_eq_some.mp hform]
      simp
    · cases h
  · rintro ⟨f, w, c, rfl, rfl⟩
    have hform : S.readForm? (S.make f w c).mnemonic.toList =
        some (f, w.letter :: (S.suffix c).toList) := by
      rw [readForm?_eq_some, S.mnemonic_make]
      simp
    simp only [hform, Width.ofLetter?_letter, find?_suffix_eq_some.mpr rfl, Option.bind_eq_bind,
      Option.bind_some, Option.pure_def]

variable (S)

/-- The family of these spellings. -/
def family : Family where
  read? := S.read?
  starts := Form.all.flatMap fun f =>
    Width.all.map fun w => ((S.stem f).push w.letter).toList.take 2
  spelled h := by
    obtain ⟨f, w, c, rfl, hcs⟩ := read?_eq_some.mp h
    exact ⟨S.recognised f w c, hcs⟩
  start_mem h := by
    obtain ⟨f, w, c, rfl, rfl⟩ := read?_eq_some.mp h
    have htwo : 2 ≤ ((S.stem f).push w.letter).toList.length := by
      have := S.one_le_length f
      rw [String.toList_push, List.length_append, List.length_singleton]
      omega
    rw [S.mnemonic_make, String.toList_append, List.take_append_of_le_length htwo]
    exact List.mem_flatMap.mpr ⟨f, f.mem_all, List.mem_map.mpr ⟨w, w.mem_all, rfl⟩⟩

theorem read?_family (f : Form) (w : Width) (c : C) :
    S.family.read? (S.make f w c).mnemonic.toList = some (S.make f w c) :=
  read?_eq_some.mpr ⟨f, w, c, rfl, rfl⟩

end Conditional

/-! ### The families that there are -/

/-- The exclusive ors. -/
def exclusiveOrs : Sized where
  stem := "xor"
  make := xor
  recognised _ := ⟨rfl, by simp, by simp⟩
  mnemonic_make _ := rfl
  two_le_length := by decide

/-- The conjunctions. -/
def conjunctions : Sized where
  stem := "and"
  make := and
  recognised _ := ⟨rfl, by simp, by simp⟩
  mnemonic_make _ := rfl
  two_le_length := by decide

/-- The shifts. -/
def shifts : Sized where
  stem := "rshift"
  make := rightShift
  recognised _ := ⟨rfl, by simp, by simp⟩
  mnemonic_make _ := rfl
  two_le_length := by decide

/-- The bit tests. -/
def tests : Conditional TestCondition where
  stem := Form.testStem
  conditions := TestCondition.all
  suffix := TestCondition.suffix
  make := bitTest
  recognised _ _ _ := ⟨rfl, by simp, by simp⟩
  mnemonic_make _ _ _ := rfl
  one_le_length f := by cases f <;> decide
  not_isPrefix rest := by simp [Form.testStem]
  mem_conditions := TestCondition.mem_all
  nodup_suffix := by decide

/-- The comparisons. -/
def comparisons : Conditional Comparison where
  stem := Form.compareStem
  conditions := Comparison.all
  suffix := Comparison.suffix
  make := compare
  recognised _ _ _ := ⟨rfl, by simp, by simp⟩
  mnemonic_make _ _ _ := rfl
  one_le_length f := by cases f <;> decide
  not_isPrefix rest := by simp [Form.compareStem]
  mem_conditions := Comparison.mem_all
  nodup_suffix := by decide

/-- The families, in the order in which they are tried. -/
def families : List Family :=
  [.word, exclusiveOrs.family, conjunctions.family, shifts.family, tests.family,
    comparisons.family]

/-- Reads a spelling piece by piece, one family after the other. -/
def scan? (cs : List Char) : Option Opcode :=
  families.findSome? (·.read? cs)

/-! ## Reading piece by piece -/

namespace Family

/-- Two families that read no text differently. -/
def Agrees (F G : Family) : Prop :=
  ∀ cs o p, F.read? cs = some o → G.read? cs = some p → o = p

instance : Std.Symm Agrees where
  symm _ _ h cs o p ho hp := (h cs p o hp ho).symm

theorem agrees_self (F : Family) : F.Agrees F := by
  intro cs o p ho hp
  exact Option.some.inj (ho.symm.trans hp)

/-- No text is read by two families whose spellings start differently. -/
theorem agrees_of_disjoint {F G : Family} (h : ∀ s ∈ F.starts, s ∉ G.starts) : F.Agrees G := by
  intro cs o p ho hp
  exact absurd (G.start_mem hp) (h _ (F.start_mem ho))

end Family

/-- The first two characters of a spelling tell its family. -/
theorem pairwise_disjoint_starts :
    families.Pairwise fun F G => ∀ s ∈ F.starts, s ∉ G.starts := by
  decide

/-- No two families read a text differently, so their order does not matter. -/
theorem agrees_of_mem_families {F G : Family} (hF : F ∈ families) (hG : G ∈ families) :
    F.Agrees G := by
  have hpairs : families.Pairwise Family.Agrees :=
    pairwise_disjoint_starts.imp Family.agrees_of_disjoint
  exact hpairs.forall_of_forall (fun F _ => F.agrees_self) hF hG

/-- Every recognised opcode is read by some family. -/
theorem Recognised.exists_read? {o : Opcode} (h : o.Recognised) :
    ∃ F ∈ families, F.read? o.mnemonic.toList = some o := by
  cases o with
  | not w =>
      refine ⟨.word, by simp [families], Family.read?_word ?_⟩
      cases w with
      | byte => exact absurd rfl h.ne_not_byte
      | quad => exact absurd rfl h.ne_not_quad
      | int => simp [words]
      | ptr => simp [words]
  | other name => exact absurd h.isOther_eq (by simp)
  | signedMulLong => exact ⟨.word, by simp [families], Family.read?_word (by simp [words])⟩
  | zeroExtendIntToPtr => exact ⟨.word, by simp [families], Family.read?_word (by simp [words])⟩
  | branchMulOverflow => exact ⟨.word, by simp [families], Family.read?_word (by simp [words])⟩
  | xor w => exact ⟨exclusiveOrs.family, by simp [families], exclusiveOrs.read?_family w⟩
  | and w => exact ⟨conjunctions.family, by simp [families], conjunctions.read?_family w⟩
  | rightShift w => exact ⟨shifts.family, by simp [families], shifts.read?_family w⟩
  | bitTest f w c => exact ⟨tests.family, by simp [families], tests.read?_family f w c⟩
  | compare f w c => exact ⟨comparisons.family, by simp [families], comparisons.read?_family f w c⟩

/-- Reading piece by piece finds the recognised opcode that is spelled so. -/
theorem scan?_eq_some_iff {cs : List Char} {o : Opcode} :
    scan? cs = some o ↔ o.Recognised ∧ o.mnemonic.toList = cs := by
  constructor
  · intro h
    obtain ⟨F, _, hread⟩ := List.exists_of_findSome?_eq_some h
    exact F.spelled hread
  · rintro ⟨hrecognised, rfl⟩
    obtain ⟨F, hF, hread⟩ := hrecognised.exists_read?
    have hsome : (scan? o.mnemonic.toList).isSome = true :=
      List.findSome?_isSome_iff.mpr ⟨F, hF, by simp [hread]⟩
    obtain ⟨p, hscan⟩ := Option.isSome_iff_exists.mp hsome
    -- an earlier family may have answered, but not differently
    obtain ⟨G, hG, hearlier⟩ := List.exists_of_findSome?_eq_some hscan
    rw [hscan, agrees_of_mem_families hG hF _ _ _ hearlier hread]

/-- No two recognised opcodes are spelled alike. -/
theorem Recognised.eq_of_mnemonic_eq {o p : Opcode} (ho : o.Recognised) (hp : p.Recognised)
    (h : o.mnemonic = p.mnemonic) : o = p := by
  have hscan := scan?_eq_some_iff.mpr ⟨ho, rfl⟩
  rw [h, scan?_eq_some_iff.mpr ⟨hp, rfl⟩] at hscan
  exact (Option.some.inj hscan).symm

/-! ## Looking a spelling up -/

theorem find?_known_eq_some_iff {m : String} {o : Opcode} :
    known.find? (·.mnemonic == m) = some o ↔ o.Recognised ∧ o.mnemonic = m := by
  rw [← mem_known_iff]
  apply find?_beq_eq_some_iff
  intro a ha b hb heq
  exact (mem_known_iff.mp ha).eq_of_mnemonic_eq (mem_known_iff.mp hb) heq

/-- Looking a spelling up is reading it piece by piece. -/
theorem ofMnemonic_eq_scan? (m : String) : ofMnemonic m = (scan? m.toList).getD (other m) := by
  have hsame : known.find? (·.mnemonic == m) = scan? m.toList := by
    ext o
    rw [find?_known_eq_some_iff, scan?_eq_some_iff, String.toList_inj]
  rw [ofMnemonic, hsame]

/-- A recognised opcode is what its spelling stands for. -/
theorem Recognised.ofMnemonic_mnemonic {o : Opcode} (h : o.Recognised) :
    ofMnemonic o.mnemonic = o := by
  rw [ofMnemonic_eq_scan?, scan?_eq_some_iff.mpr ⟨h, rfl⟩, Option.getD_some]

/-- A spelling of no recognised opcode is a name of its own. -/
theorem ofMnemonic_eq_other_iff {m : String} :
    ofMnemonic m = other m ↔ ¬∃ k : Opcode, k.Recognised ∧ k.mnemonic = m := by
  constructor
  · rintro h ⟨k, hk, rfl⟩
    rw [hk.ofMnemonic_mnemonic] at h
    exact absurd hk.isOther_eq (by rw [h]; simp)
  · intro h
    cases hscan : scan? m.toList with
    | none => rw [ofMnemonic_eq_scan?, hscan, Option.getD_none]
    | some k =>
        obtain ⟨hk, hm⟩ := scan?_eq_some_iff.mp hscan
        exact absurd ⟨k, hk, String.toList_inj.mp hm⟩ h

/-- What a spelling stands for is recognised or a name of its own. -/
theorem recognised_or_eq_other (m : String) :
    (ofMnemonic m).Recognised ∨ ofMnemonic m = other m := by
  by_cases h : ∃ k : Opcode, k.Recognised ∧ k.mnemonic = m
  · obtain ⟨k, hk, rfl⟩ := h
    rw [hk.ofMnemonic_mnemonic]
    exact .inl hk
  · exact .inr (ofMnemonic_eq_other_iff.mpr h)

end Opcode

end MacroAsm
