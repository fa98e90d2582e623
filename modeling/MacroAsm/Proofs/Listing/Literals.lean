import MacroAsm.Proofs.Listing.Operands
import Mathlib.Data.Int.ModEq
import Mathlib.Data.Nat.Digits.Defs

/-!
# Integer literals

Which tokens are integers, and which.  A numeral is a string of digits of a base, most significant
first, and stands for the number that has these digits.  A decimal literal has to fit 64 bits with
its sign; a hexadecimal literal may use all 64 bits for its magnitude, and the signed value is taken
modulo `2 ^ 64`.

## Main definitions

* `Text.IsNumeral` — a digit string and the number with these digits.
* `IsDecimalLiteral`, `IsHexLiteral` — a token and the integer that it writes down.

## Main statements

* `Text.decimal?_eq_some_iff`, `Text.hexadecimal?_eq_some_iff` — what the digit strings stand for.
* `readInteger?_eq_some_iff` — the value that a token is read as.
* `readInteger?_literals` — the tokens that are read, their values, and printed integers among them.
-/

namespace MacroAsm

/-! ## Numerals -/

namespace Text

/-- A digit of a base, in either case, and its value. -/
structure IsDigit (base : Nat) (c : Char) (d : Nat) : Prop where
  lt_base : d < base
  mem_cases : c ∈ [d.digitChar, d.digitChar.toUpper]

/-- A nonempty string of digits of a base, most significant first, and the number with these
digits. -/
structure IsNumeral (base : Nat) (cs : List Char) (n : Nat) : Prop where
  ne_nil : cs ≠ []
  exists_digits : ∃ ds, List.Forall₂ (IsDigit base) cs ds ∧ Nat.ofDigits base ds.reverse = n

/-- A test and a value for ASCII characters describe the digits of a base when they do so for each
digit and for each ASCII character. -/
theorem isDigit_iff {base : Nat} {isDig : Char → Bool} {value : Char → Nat}
    (hdigits : ∀ d < base,
      [d.digitChar, d.digitChar.toUpper].all (fun c => isDig c && value c == d) = true)
    (hchars : ∀ n < 128, isDig (Char.ofNat n) = true → value (Char.ofNat n) < base ∧
      Char.ofNat n ∈ [(value (Char.ofNat n)).digitChar, (value (Char.ofNat n)).digitChar.toUpper])
    (hascii : ∀ c, isDig c = true → c.toNat < 128) {c : Char} {d : Nat} :
    IsDigit base c d ↔ isDig c = true ∧ value c = d := by
  constructor
  · rintro ⟨hlt, hmem⟩
    simpa using List.all_eq_true.mp (hdigits d hlt) c hmem
  · rintro ⟨hdigit, rfl⟩
    have hc := hchars c.toNat (hascii c hdigit)
    rw [Char.ofNat_toNat] at hc
    exact ⟨(hc hdigit).1, (hc hdigit).2⟩

theorem toNat_lt_of_isDigit {c : Char} (h : c.isDigit = true) : c.toNat < 128 := by
  have := Listing.toNat_of_isDigit h
  omega

theorem toNat_lt_of_isHexDigit {c : Char} (h : isHexDigit c = true) : c.toNat < 128 := by
  simp only [isHexDigit, Bool.or_eq_true, Bool.and_eq_true, decide_eq_true_eq] at h
  rcases h with (h | ⟨_, h⟩) | ⟨_, h⟩
  · exact toNat_lt_of_isDigit h
  all_goals
    have : c.toNat ≤ 102 := by
      refine Nat.le_trans (UInt32.le_iff_toNat_le.mp (Char.le_def.mp h)) ?_
      decide
    omega

theorem isDigit_ten_iff {c : Char} {d : Nat} :
    IsDigit 10 c d ↔ c.isDigit = true ∧ c.toNat - '0'.toNat = d :=
  @isDigit_iff 10 Char.isDigit (fun c => c.toNat - '0'.toNat) (by decide) (by decide +kernel)
    (fun _ => toNat_lt_of_isDigit) c d

theorem isDigit_sixteen_iff {c : Char} {d : Nat} :
    IsDigit 16 c d ↔ isHexDigit c = true ∧ hexDigitValue c = d :=
  isDigit_iff (by decide) (by decide +kernel) fun _ => toNat_lt_of_isHexDigit

/-- The digits of a numeral are the values of its characters. -/
theorem forall₂_isDigit_iff {base : Nat} {isDig : Char → Bool} {value : Char → Nat}
    (h : ∀ {c d}, IsDigit base c d ↔ isDig c = true ∧ value c = d) {cs : List Char}
    {ds : List Nat} :
    List.Forall₂ (IsDigit base) cs ds ↔ cs.all isDig = true ∧ cs.map value = ds := by
  induction cs generalizing ds with
  | nil => simp [List.forall₂_nil_left_iff, eq_comm]
  | cons c cs ih =>
      rw [List.forall₂_cons_left_iff]
      constructor
      · rintro ⟨d, rest, hc, hcs, rfl⟩
        obtain ⟨hdigit, rfl⟩ := h.mp hc
        obtain ⟨hall, rfl⟩ := ih.mp hcs
        simp [hdigit, hall]
      · rintro ⟨hall, rfl⟩
        simp only [List.all_cons, Bool.and_eq_true] at hall
        exact ⟨_, _, h.mpr ⟨hall.1, rfl⟩, ih.mpr ⟨hall.2, rfl⟩, rfl⟩

/-- A numeral is evaluated from its most significant digit on. -/
theorem isNumeral_iff {base : Nat} {isDig : Char → Bool} {value : Char → Nat}
    (h : ∀ {c d}, IsDigit base c d ↔ isDig c = true ∧ value c = d) {cs : List Char} {n : Nat} :
    IsNumeral base cs n ↔
      (cs ≠ [] ∧ cs.all isDig = true) ∧
        cs.foldl (fun total c => base * total + value c) 0 = n := by
  have hvalue : cs.foldl (fun total c => base * total + value c) 0 =
      Nat.ofDigits base (cs.map value).reverse := by
    rw [List.foldl_eq_foldr_reverse, Nat.ofDigits_eq_foldr, ← List.map_reverse, List.foldr_map]
    simp [Nat.add_comm]
  rw [hvalue]
  constructor
  · rintro ⟨hne, ds, hds, rfl⟩
    obtain ⟨hall, rfl⟩ := (forall₂_isDigit_iff h).mp hds
    exact ⟨⟨hne, hall⟩, rfl⟩
  · rintro ⟨⟨hne, hall⟩, rfl⟩
    exact ⟨hne, _, (forall₂_isDigit_iff h).mpr ⟨hall, rfl⟩, rfl⟩

theorem decimal?_eq_some_iff {cs : List Char} {n : Nat} :
    decimal? cs = some n ↔ IsNumeral 10 cs n := by
  rw [isNumeral_iff isDigit_ten_iff, decimal?, Nat.ofDigitChars_eq_foldl]
  split <;> simp_all

theorem hexadecimal?_eq_some_iff {cs : List Char} {n : Nat} :
    hexadecimal? cs = some n ↔ IsNumeral 16 cs n := by
  rw [isNumeral_iff isDigit_sixteen_iff, hexadecimal?, hexValue]
  split <;> simp_all

end Text

/-! ## Literals -/

namespace Listing

open Text

/-- A text behind its sign. -/
def signedText (negative : Bool) (cs : List Char) : List Char :=
  if negative then '-' :: cs else cs

/-- A magnitude with its sign. -/
def signedValue (negative : Bool) (n : Nat) : Int :=
  if negative then -n else n

/-- A token that is a decimal numeral behind its sign, and the integer that it writes down. -/
def IsDecimalLiteral (token : List Char) (i : Int) : Prop :=
  ∃ negative digits n, token = signedText negative digits ∧ IsNumeral 10 digits n ∧
    i = signedValue negative n

/-- A token that is `0x` and a hexadecimal numeral of 64 bits behind its sign, and the integer that
it writes down. -/
def IsHexLiteral (token : List Char) (i : Int) : Prop :=
  ∃ negative digits n, token = signedText negative ('0' :: 'x' :: digits) ∧ IsNumeral 16 digits n ∧
    n < 2 ^ 64 ∧ i = signedValue negative n

/-- The 64-bit integer that an integer wraps around to is the one congruent to it. -/
theorem ofInt_eq_iff_modEq {i : Int} {v : Int64} :
    Int64.ofInt i = v ↔ v.toInt ≡ i [ZMOD 2 ^ 64] := by
  constructor
  · rintro rfl
    rw [Int64.toInt_ofInt]
    exact Int.bmod_emod
  · intro h
    apply Int64.toInt.inj
    calc (Int64.ofInt i).toInt = (i % 2 ^ 64).bmod Int64.size := by
          rw [Int64.toInt_ofInt]
          exact (Int.emod_bmod i _).symm
      _ = (v.toInt % 2 ^ 64).bmod Int64.size := by rw [h.eq]
      _ = v.toInt.bmod Int64.size := Int.emod_bmod v.toInt _
      _ = v.toInt := v.toInt_bmod_size

theorem toInt_ofInt_of_range {i : Int}
    (h : Int64.minValue.toInt ≤ i ∧ i ≤ Int64.maxValue.toInt) : (Int64.ofInt i).toInt = i := by
  rw [Int64.toInt_minValue, Int64.toInt_maxValue] at h
  exact Int64.toInt_ofInt_of_le h.1 (by omega)

theorem signedText_head_tail (token : List Char) :
    signedText (token.head? == some '-')
      (if token.head? == some '-' then token.tail else token) = token := by
  cases token with
  | nil => rfl
  | cons c cs =>
      by_cases hc : c = '-'
      · simp [signedText, hc]
      · simp [signedText, hc]

theorem readInteger?_hexadecimal (negative : Bool) (digits : List Char) :
    readInteger? (signedText negative ('0' :: 'x' :: digits)) =
      (hexadecimal? digits).bind fun n =>
        if n < UInt64.size then some (Int64.ofInt (signedValue negative n)) else none := by
  cases negative <;> rfl

/-- A token that is read is a literal of one of the two kinds. -/
theorem isLiteral_of_readInteger? {token : List Char} {v : Int64}
    (h : readInteger? token = some v) :
    IsDecimalLiteral token v.toInt ∨ ∃ i, IsHexLiteral token i ∧ v.toInt ≡ i [ZMOD 2 ^ 64] := by
  have htoken := signedText_head_tail token
  unfold readInteger? at h
  dsimp only at h
  split at h
  · rename_i digits hmagnitude
    rw [hmagnitude] at htoken
    simp only [Option.bind_eq_bind, Option.bind_eq_some_iff, Option.ite_none_right_eq_some] at h
    obtain ⟨n, hn, hlt, hv⟩ := h
    right
    exact ⟨_, ⟨_, digits, n, htoken.symm, hexadecimal?_eq_some_iff.mp hn, hlt, rfl⟩,
      ofInt_eq_iff_modEq.mp (Option.some.inj hv)⟩
  · simp only [Option.bind_eq_bind, Option.bind_eq_some_iff, Option.ite_none_right_eq_some] at h
    obtain ⟨n, hn, hrange, hv⟩ := h
    left
    refine ⟨_, _, n, htoken.symm, decimal?_eq_some_iff.mp hn, ?_⟩
    rw [← Option.some.inj hv, toInt_ofInt_of_range hrange]
    rfl

/-- The value that a token is read as: that of a decimal literal which fits, or the one that is
congruent to a hexadecimal literal. -/
theorem readInteger?_eq_some_iff {token : List Char} {v : Int64} :
    readInteger? token = some v ↔
      IsDecimalLiteral token v.toInt ∨ ∃ i, IsHexLiteral token i ∧ v.toInt ≡ i [ZMOD 2 ^ 64] := by
  refine ⟨isLiteral_of_readInteger?, ?_⟩
  rintro (⟨negative, digits, n, rfl, hdigits, hv⟩ |
    ⟨_, ⟨negative, digits, n, rfl, hdigits, hlt, rfl⟩, hv⟩)
  · have hread := readInteger?_decimal (decimal?_eq_some_iff.mpr hdigits) negative
    rw [← signedText, ← signedValue, ← hv, if_pos ⟨v.minValue_le_toInt, v.toInt_le⟩,
      Int64.ofInt_toInt] at hread
    exact hread
  · rw [readInteger?_hexadecimal, hexadecimal?_eq_some_iff.mpr hdigits, Option.bind_some,
      if_pos (show n < UInt64.size from hlt), ofInt_eq_iff_modEq.mpr hv]

/-- A decimal literal that fits 64 bits is read as its value. -/
theorem exists_readInteger?_of_isDecimalLiteral {token : List Char} {i : Int}
    (h : IsDecimalLiteral token i) (hlow : -2 ^ 63 ≤ i) (hhigh : i < 2 ^ 63) :
    ∃ v, readInteger? token = some v ∧ v.toInt = i := by
  have hself : (Int64.ofInt i).toInt = i := Int64.toInt_ofInt_of_le hlow hhigh
  exact ⟨Int64.ofInt i, readInteger?_eq_some_iff.mpr (.inl (by rwa [hself])), hself⟩

/-- A hexadecimal literal is read as the only 64-bit integer congruent to its value. -/
theorem exists_readInteger?_of_isHexLiteral {token : List Char} {i : Int}
    (h : IsHexLiteral token i) :
    ∃ v, readInteger? token = some v ∧ ∀ w : Int64, w.toInt ≡ i [ZMOD 2 ^ 64] ↔ w = v := by
  refine ⟨Int64.ofInt i, ?_, ?_⟩
  · exact readInteger?_eq_some_iff.mpr (.inr ⟨i, h, ofInt_eq_iff_modEq.mp rfl⟩)
  · intro w
    rw [← ofInt_eq_iff_modEq, eq_comm]

/-- The tokens that are read. -/
theorem isSome_readInteger?_iff {token : List Char} :
    (readInteger? token).isSome = true ↔
      (∃ i, IsDecimalLiteral token i ∧ -2 ^ 63 ≤ i ∧ i < 2 ^ 63) ∨ ∃ i, IsHexLiteral token i := by
  constructor
  · intro hsome
    obtain ⟨v, hv⟩ := Option.isSome_iff_exists.mp hsome
    rcases readInteger?_eq_some_iff.mp hv with hi | ⟨i, hi, _⟩
    · exact .inl ⟨v.toInt, hi, v.le_toInt, v.toInt_lt⟩
    · exact .inr ⟨i, hi⟩
  · rintro (⟨i, hi, hlow, hhigh⟩ | ⟨i, hi⟩)
    · obtain ⟨v, hv, _⟩ := exists_readInteger?_of_isDecimalLiteral hi hlow hhigh
      simp [hv]
    · obtain ⟨v, hv, _⟩ := exists_readInteger?_of_isHexLiteral hi
      simp [hv]

/-- The tokens that are read are the decimal literals that fit 64 bits and the hexadecimal literals.
A decimal literal is read as its value, a hexadecimal one as the only 64-bit integer congruent to
its value, and the decimal text of a 64-bit integer as that integer. -/
theorem readInteger?_literals :
    (∀ token,
      ((readInteger? token).isSome = true ↔
        (∃ i, IsDecimalLiteral token i ∧ -2 ^ 63 ≤ i ∧ i < 2 ^ 63) ∨ ∃ i, IsHexLiteral token i) ∧
      (∀ i, IsDecimalLiteral token i → -2 ^ 63 ≤ i → i < 2 ^ 63 →
        ∃ v, readInteger? token = some v ∧ v.toInt = i) ∧
      ∀ i, IsHexLiteral token i →
        ∃ v, readInteger? token = some v ∧ ∀ w : Int64, w.toInt ≡ i [ZMOD 2 ^ 64] ↔ w = v) ∧
    ∀ v : Int64, readInteger? (intText v.toInt).toList = some v := by
  refine ⟨fun token => ⟨?_, ?_, ?_⟩, readInteger?_intText⟩
  · exact isSome_readInteger?_iff
  · intro i hi hlow hhigh
    exact exists_readInteger?_of_isDecimalLiteral hi hlow hhigh
  · intro i hi
    exact exists_readInteger?_of_isHexLiteral hi

/-- All ones with a minus sign wrap around to one. -/
theorem readInteger?_literals_all_ones :
    IsHexLiteral "-0xffffffffFFFFFFFF".toList (-(2 ^ 64 - 1)) ∧
      readInteger? "-0xffffffffFFFFFFFF".toList = some 1 := by
  have hliteral : IsHexLiteral "-0xffffffffFFFFFFFF".toList (-(2 ^ 64 - 1)) :=
    ⟨true, "ffffffffFFFFFFFF".toList, 2 ^ 64 - 1, rfl, hexadecimal?_eq_some_iff.mp (by decide),
      by decide, rfl⟩
  obtain ⟨v, hread, hv⟩ := (readInteger?_literals.1 _).2.2 _ hliteral
  have hone : (1 : Int64) = v := (hv 1).mp (by decide)
  exact ⟨hliteral, by rw [hread, hone]⟩

end Listing

end MacroAsm
