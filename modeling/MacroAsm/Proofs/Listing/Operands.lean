import MacroAsm.Proofs.Listing.Fields
import MacroAsm.Proofs.Origins
import Mathlib.Data.List.Forall2

/-!
# Operands that read back

An operand is written as it is and read by its form, so it reads back when its text is one field of
the kind that the operand is.  Immediates and temporaries always do.

## Main definitions

* `Listing.IsOperandText` — a text that stands as one operand of an instruction.
* `Operand.Canonical` — an operand whose text has the form of its kind.

## Main statements

* `Operand.readOperand_text` — canonical operands read back.
* `Operand.canonical_of_readOperand` — what is read is canonical.
-/

namespace MacroAsm

open Text Listing

namespace Listing

/-- A text that stands as one operand: a trimmed field with no number sign, which would start a
comment, and no line feed. -/
structure IsOperandText (cs : List Char) : Prop extends IsTrimmedField cs where
  hash_notMem : '#' ∉ cs
  newline_notMem : '\n' ∉ cs

/-- A text with a bracket in it. -/
def HasBracket (cs : List Char) : Prop :=
  ∃ c ∈ cs, isOpener c = true ∨ isCloser c = true

/-- The characters of numbers and of the names of temporaries. -/
def IsNumeric (c : Char) : Prop :=
  c ∈ ['-', '%', 't', 'f'] ∨ c.isDigit = true

theorem toNat_of_isDigit {c : Char} (h : c.isDigit = true) : 48 ≤ c.toNat ∧ c.toNat ≤ 57 := by
  simp only [Char.isDigit, ge_iff_le, Bool.and_eq_true, decide_eq_true_eq] at h
  exact ⟨UInt32.le_iff_toNat_le.mp h.1, UInt32.le_iff_toNat_le.mp h.2⟩

/-- A number or a name of a temporary holds none of the characters that lay out a line. -/
theorem IsNumeric.ne {c d : Char} (h : IsNumeric c)
    (hd : d ∈ ['[', '(', ']', ')', ',', '#', '\n', ':', '\r', ' ']) : c ≠ d := by
  rintro rfl
  have hnone : ['[', '(', ']', ')', ',', '#', '\n', ':', '\r', ' '].all
      (fun d => d ∉ ['-', '%', 't', 'f'] && !d.isDigit) = true := by decide
  have hc := List.all_eq_true.mp hnone c hd
  simp only [Bool.and_eq_true, decide_eq_true_eq, Bool.not_eq_true'] at hc
  rcases h with h | h
  · exact hc.1 h
  · simp [hc.2] at h

theorem IsNumeric.not_isBlank {c : Char} (h : IsNumeric c) : isBlank c = false := by
  rcases h with h | h
  · have hnone : ['-', '%', 't', 'f'].all (!isBlank ·) = true := by decide
    simpa using List.all_eq_true.mp hnone c h
  · obtain ⟨hlow, hhigh⟩ := toNat_of_isDigit h
    simp only [isBlank, Bool.or_eq_false_iff, Bool.and_eq_false_iff, decide_eq_false_iff_not,
      beq_eq_false_iff_ne]
    omega

theorem IsNumeric.weight_eq_zero {c : Char} (h : IsNumeric c) : weight c = 0 := by
  apply Listing.weight_eq_zero
  intro hmem
  have hlayout : c ∈ ['[', '(', ']', ')', ',', '#', '\n', ':', '\r', ' '] :=
    List.mem_append_left [',', '#', '\n', ':', '\r', ' '] hmem
  exact h.ne hlayout rfl

theorem isField_of_isNumeric {cs : List Char} (h : ∀ c ∈ cs, IsNumeric c) : IsField cs := by
  induction cs with
  | nil => simp [IsField]
  | cons c cs ih =>
      have hc : IsNumeric c := h c List.mem_cons_self
      have hcs : IsField cs := ih fun d hd => h d (List.mem_cons_of_mem c hd)
      rw [IsField, isFieldFrom_cons, hc.weight_eq_zero]
      exact ⟨Int.le_refl 0, fun heq => absurd heq (hc.ne (by simp)), hcs⟩

theorem isOperandText_of_isNumeric {cs : List Char} (hne : cs ≠ []) (h : ∀ c ∈ cs, IsNumeric c) :
    IsOperandText cs where
  ne_nil := hne
  trim_eq := trim_eq_self_iff.mpr
    ⟨fun c hc => (h c (List.mem_of_mem_head? hc)).not_isBlank,
      fun c hc => (h c (List.mem_of_getLast? hc)).not_isBlank⟩
  isField := isField_of_isNumeric h
  hash_notMem := fun hmem => (h '#' hmem).ne (by simp) rfl
  newline_notMem := fun hmem => (h '\n' hmem).ne (by simp) rfl

theorem not_hasBracket_of_isNumeric {cs : List Char} (h : ∀ c ∈ cs, IsNumeric c) :
    ¬HasBracket cs := by
  rintro ⟨c, hmem, hbracket⟩
  have hc := h c hmem
  simp only [isOpener, isCloser, Bool.or_eq_true, beq_iff_eq] at hbracket
  rcases hbracket with (rfl | rfl) | (rfl | rfl) <;> exact hc.ne (by simp) rfl

theorem isNumeric_of_mem_toDigits {c : Char} {n : Nat} (h : c ∈ Nat.toDigits 10 n) : IsNumeric c :=
  .inr (Nat.isDigit_of_mem_toDigits (by decide) (by decide) h)

theorem isNumeric_of_mem_intText {c : Char} {n : Int} (h : c ∈ (intText n).toList) :
    IsNumeric c := by
  cases n with
  | ofNat m =>
      rw [intText, Nat.toList_repr] at h
      exact isNumeric_of_mem_toDigits h
  | negSucc m =>
      rw [intText, String.toList_append, Nat.toList_repr] at h
      rcases List.mem_append.mp h with h | h
      · left
        simp at h ⊢
        exact .inl h
      · exact isNumeric_of_mem_toDigits h

/-! ## Numbers -/

theorem isDigit_of_decimal? {digits : List Char} {n : Nat} (h : decimal? digits = some n) :
    digits ≠ [] ∧ ∀ c ∈ digits, c.isDigit = true := by
  unfold decimal? at h
  split at h
  · rename_i hdigits
    exact ⟨hdigits.1, List.all_eq_true.mp hdigits.2⟩
  · simp at h

/-- Digits are not a hexadecimal literal: the second character of one is no digit. -/
theorem ne_hexadecimal_of_decimal? {digits : List Char} {n : Nat} (h : decimal? digits = some n)
    (tail : List Char) : digits ≠ '0' :: 'x' :: tail := by
  rintro rfl
  have := (isDigit_of_decimal? h).2 'x' (by simp)
  simp at this

/-- A decimal literal stands for its signed value, when that fits 64 bits. -/
theorem readInteger?_decimal {digits : List Char} {n : Nat} (h : decimal? digits = some n)
    (negative : Bool) :
    readInteger? (if negative then '-' :: digits else digits) =
      if Int64.minValue.toInt ≤ (if negative then -(n : Int) else n) ∧
          (if negative then -(n : Int) else n) ≤ Int64.maxValue.toInt then
        some (Int64.ofInt (if negative then -(n : Int) else n))
      else none := by
  have hminus : digits.head? ≠ some '-' := by
    intro hhead
    have := (isDigit_of_decimal? h).2 '-' (List.mem_of_mem_head? hhead)
    simp at this
  have hsign : ((if negative then '-' :: digits else digits).head? == some '-') = negative := by
    cases negative with
    | false => simpa using hminus
    | true => rfl
  have hmagnitude : (if negative then (if negative then '-' :: digits else digits).tail
      else if negative then '-' :: digits else digits) = digits := by
    cases negative <;> rfl
  unfold readInteger?
  rw [hsign]
  dsimp only
  rw [hmagnitude]
  split
  · exact absurd rfl (ne_hexadecimal_of_decimal? h _)
  · rw [h, Option.bind_eq_bind, Option.bind_some]

/-- The decimal text of a 64-bit integer reads back. -/
theorem readInteger?_intText (v : Int64) : readInteger? (intText v.toInt).toList = some v := by
  have hself : Int64.ofInt v.toInt = v := Int64.toInt.inj (by simp)
  have hrange : Int64.minValue.toInt ≤ v.toInt ∧ v.toInt ≤ Int64.maxValue.toInt :=
    ⟨v.minValue_le_toInt, v.toInt_le⟩
  -- the sign is written exactly when the value is negative
  have hread : ∀ (n : Nat) (negative : Bool), (if negative then -(n : Int) else n) = v.toInt →
      readInteger? (if negative then '-' :: Nat.toDigits 10 n else Nat.toDigits 10 n) = some v := by
    intro n negative hn
    rw [readInteger?_decimal (decimal?_toDigits n), if_pos (by rw [hn]; exact hrange), hn, hself]
  cases hv : v.toInt with
  | ofNat m =>
      rw [intText, Nat.toList_repr]
      exact hread m false hv.symm
  | negSucc m =>
      rw [intText, String.toList_append, Nat.toList_repr]
      exact hread (m + 1) true hv.symm

/-- The name of a temporary reads back. -/
theorem readTemporary?_text (t : Temporary) :
    readTemporary? t.text.toList = some (t.bank, t.id) := by
  have hnumber : readTemporary?.number? (Nat.toDigits 10 t.id.toNat) = some t.id := by
    simp only [readTemporary?.number?, decimal?_toDigits, Option.bind_eq_bind, Option.bind_some]
    rw [if_pos t.id.toNat_lt, UInt32.ofNat_toNat]
  rw [Temporary.text, String.toList_append, Nat.toList_repr]
  cases hbank : t.bank <;>
    simp [RegisterClass.letter, readTemporary?, hnumber]

theorem any_isBracket {cs : List Char} :
    (cs.any fun c => isOpener c || isCloser c) = true ↔ HasBracket cs := by
  simp [HasBracket]

theorem startsInteger_intText (n : Int) : startsInteger (intText n).toList = true := by
  cases n with
  | ofNat m =>
      rw [intText, Nat.toList_repr]
      cases hdigits : Nat.toDigits 10 m with
      | nil => exact absurd hdigits Nat.toDigits_ne_nil
      | cons c cs =>
          have hmem : c ∈ Nat.toDigits 10 m := by simp [hdigits]
          have hc : c.isDigit = true := Nat.isDigit_of_mem_toDigits (by decide) (by decide) hmem
          simp [startsInteger, hc]
  | negSucc m => simp [intText, startsInteger]

theorem intText_ne_nil (n : Int) : (intText n).toList ≠ [] := by
  intro hnil
  have := startsInteger_intText n
  simp [hnil, startsInteger] at this

end Listing

/-! ## Canonical operands -/

namespace Operand

/-- An operand whose text stands as one operand and has the form of its kind: an address has a
bracket and does not start like a temporary, a label starts with a dot or an underscore, and a
register starts with none of the marks of the other kinds.  The text of an immediate or a temporary
is always of that form. -/
def Canonical : Operand → Prop
  | immediate _ => True
  | temporary _ => True
  | address text =>
    IsOperandText text.toList ∧ HasBracket text.toList ∧ text.toList.head? ≠ some '%'
  | label name =>
    IsOperandText name.toList ∧ ¬HasBracket name.toList ∧
      (name.toList.head? = some '.' ∨ name.toList.head? = some '_')
  | register name =>
    IsOperandText name.toList ∧ ¬HasBracket name.toList ∧
      ∀ c, name.toList.head? = some c → c ∉ ['%', '-', '.', '_'] ∧ c.isDigit = false

theorem isNumeric_of_mem_immediate {value : Int64} {c : Char}
    (h : c ∈ (immediate value).text.toList) : IsNumeric c :=
  isNumeric_of_mem_intText h

theorem isNumeric_of_mem_temporary {t : Temporary} {c : Char}
    (h : c ∈ (temporary t).text.toList) : IsNumeric c := by
  rw [text, Temporary.text, String.toList_append, Nat.toList_repr] at h
  rcases List.mem_append.mp h with h | h
  · left
    have hletter : t.bank.letter = 't' ∨ t.bank.letter = 'f' := by
      cases t.bank <;> simp [RegisterClass.letter]
    simp only [String.toList_push, List.mem_append, List.mem_singleton] at h
    rcases h with h | rfl
    · simp_all
    · rcases hletter with hletter | hletter <;> simp [hletter]
  · exact isNumeric_of_mem_toDigits h

/-- The text of a canonical operand stands as one operand. -/
theorem Canonical.isOperandText {operand : Operand} (h : operand.Canonical) :
    IsOperandText operand.text.toList := by
  cases operand with
  | register name => exact h.1
  | temporary t =>
      apply isOperandText_of_isNumeric
      · simp [text, Temporary.text]
      · intro c hc
        exact isNumeric_of_mem_temporary hc
  | immediate value =>
      apply isOperandText_of_isNumeric
      · exact intText_ne_nil _
      · intro c hc
        exact isNumeric_of_mem_immediate hc
  | label name => exact h.1
  | address text => exact h.1

/-- A canonical operand reads back. -/
theorem readOperand_text {operand : Operand} (h : operand.Canonical) (origin : Origin) :
    readOperand origin operand.text.toList = .ok (operand.mapOrigin fun _ => origin) := by
  cases operand with
  | temporary t =>
      have hread : readTemporary? (temporary t).text.toList = some (t.bank, t.id) :=
        readTemporary?_text t
      have hhead : (temporary t).text.toList.head? = some '%' := by
        simp [text, Temporary.text]
      simp [readOperand, hhead, hread, mapOrigin, Temporary.mapOrigin]
  | immediate value =>
      have hstart : startsInteger (immediate value).text.toList = true := startsInteger_intText _
      have hread : readInteger? (immediate value).text.toList = some value :=
        readInteger?_intText value
      have hhead : (immediate value).text.toList.head? ≠ some '%' := by
        intro hhead
        simp [startsInteger, hhead] at hstart
      have hplain : ¬HasBracket (immediate value).text.toList :=
        not_hasBracket_of_isNumeric fun _ => isNumeric_of_mem_immediate
      rw [← any_isBracket, Bool.not_eq_true] at hplain
      simp [readOperand, hhead, hplain, hstart, hread, mapOrigin]
  | address text =>
      obtain ⟨_, hbracket, hhead⟩ := h
      rw [← any_isBracket] at hbracket
      simp [readOperand, Operand.text, hhead, hbracket, mapOrigin]
  | label name =>
      obtain ⟨_, hplain, hdot | hunderscore⟩ := h
      all_goals rw [← any_isBracket, Bool.not_eq_true] at hplain
      · simp [readOperand, Operand.text, hdot, hplain, startsInteger, startsLabel, mapOrigin]
      · simp [readOperand, Operand.text, hunderscore, hplain, startsInteger, startsLabel, mapOrigin]
  | register name =>
      obtain ⟨htext, hplain, hfirst⟩ := h
      obtain ⟨c, cs, hname⟩ := List.exists_cons_of_ne_nil htext.ne_nil
      obtain ⟨hmarks, hdigit⟩ := hfirst c (by simp [hname])
      rw [← any_isBracket, Bool.not_eq_true] at hplain
      have hhead : name.toList.head? = some c := by simp [hname]
      simp only [List.mem_cons, List.not_mem_nil, or_false, not_or] at hmarks
      obtain ⟨hpercent, hminus, hdot, hunderscore⟩ := hmarks
      simp [readOperand, Operand.text, hhead, hplain, startsInteger, startsLabel, mapOrigin,
        hpercent, hminus, hdot, hunderscore, hdigit]

/-- What is read from a text that stands as one operand is canonical, and ends in a colon only if
the text does. -/
theorem canonical_of_readOperand {origin : Origin} {field : List Char} {operand : Operand}
    (hfield : IsOperandText field) (h : readOperand origin field = .ok operand) :
    operand.Canonical ∧
      (operand.text.toList.getLast? = some ':' → field.getLast? = some ':') := by
  unfold readOperand at h
  split at h
  · split at h
    · obtain rfl := Except.ok.inj h
      refine ⟨trivial, ?_⟩
      intro hlast
      exact absurd rfl ((isNumeric_of_mem_temporary (List.mem_of_getLast? hlast)).ne (by simp))
    · simp at h
  rename_i hhead
  split at h
  · rename_i hbracket
    obtain rfl := Except.ok.inj h
    exact ⟨by simpa [Canonical] using ⟨hfield, any_isBracket.mp hbracket, by simpa using hhead⟩,
      by simp [text]⟩
  rename_i hplain
  rw [any_isBracket] at hplain
  split at h
  · split at h
    · obtain rfl := Except.ok.inj h
      refine ⟨trivial, ?_⟩
      intro hlast
      exact absurd rfl ((isNumeric_of_mem_immediate (List.mem_of_getLast? hlast)).ne (by simp))
    · simp at h
  rename_i hinteger
  split at h
  · rename_i hlabel
    obtain rfl := Except.ok.inj h
    refine ⟨?_, by simp [text]⟩
    obtain ⟨c, cs, rfl⟩ := List.exists_cons_of_ne_nil hfield.ne_nil
    simp only [Canonical, String.toList_ofList, List.head?_cons, Option.some.injEq]
    exact ⟨hfield, hplain, by simpa [startsLabel] using hlabel⟩
  · rename_i hlabel
    obtain rfl := Except.ok.inj h
    refine ⟨?_, by simp [text]⟩
    obtain ⟨c, cs, rfl⟩ := List.exists_cons_of_ne_nil hfield.ne_nil
    simp only [Canonical, String.toList_ofList, List.head?_cons, Option.some.injEq]
    refine ⟨hfield, hplain, ?_⟩
    rintro d rfl
    simp only [startsInteger, startsLabel, List.head?_cons, Option.any_some, Bool.or_eq_true,
      beq_iff_eq, not_or, Bool.not_eq_true, Option.some.injEq] at hhead hinteger hlabel
    exact ⟨by simp [hhead, hinteger.1, hlabel.1, hlabel.2], hinteger.2⟩

end Operand

/-! ## All operands of an instruction -/

namespace Listing

/-- Operands are read field by field. -/
theorem mapM_readOperand_eq_ok {origin : Origin} {fields : List (List Char)}
    {operands : List Operand} :
    fields.mapM (readOperand origin) = .ok operands ↔
      List.Forall₂ (fun field operand => readOperand origin field = .ok operand)
        fields operands := by
  induction fields generalizing operands with
  | nil =>
      rw [List.mapM_nil, List.forall₂_nil_left_iff]
      exact ⟨fun h => (Except.ok.inj h).symm, fun h => congrArg Except.ok h.symm⟩
  | cons field fields ih =>
      rw [List.mapM_cons, List.forall₂_cons_left_iff]
      constructor
      · intro h
        cases hfirst : readOperand origin field with
        | error fault => simp [hfirst, bind, Except.bind] at h
        | ok first =>
            cases hrest : fields.mapM (readOperand origin) with
            | error fault => simp [hfirst, hrest, bind, Except.bind] at h
            | ok rest =>
                simp only [hfirst, hrest, bind, Except.bind, pure, Except.pure] at h
                exact ⟨first, rest, rfl, ih.mp hrest, (Except.ok.inj h).symm⟩
      · rintro ⟨first, rest, hfirst, hrest, rfl⟩
        rw [hfirst, ih.mpr hrest]
        rfl

/-- The texts of canonical operands read back. -/
theorem mapM_readOperand_text {operands : List Operand} (h : ∀ o ∈ operands, o.Canonical)
    (origin : Origin) :
    (operands.map fun o => o.text.toList).mapM (readOperand origin) =
      .ok (operands.map (Operand.mapOrigin fun _ => origin)) := by
  rw [mapM_readOperand_eq_ok, List.forall₂_map_left_iff, List.forall₂_map_right_iff,
    List.forall₂_same]
  intro o ho
  exact Operand.readOperand_text (h o ho) origin

end Listing

end MacroAsm
