/-!
# Numerals

Digit strings and the numbers they stand for.  A numeral has at least one digit, and leading zeros
do not change its value.

## Main definitions

* `decimal?` — the value of a string of ASCII digits.
* `hexadecimal?` — the value of a string of hexadecimal digits in either case.
* `intText` — the decimal text of an integer.
-/

namespace MacroAsm.Text

/-- The value of a nonempty string of ASCII digits. -/
def decimal? (cs : List Char) : Option Nat :=
  if cs ≠ [] ∧ cs.all Char.isDigit then some (Nat.ofDigitChars 10 cs 0) else none

/-- An ASCII hexadecimal digit, in either case. -/
def isHexDigit (c : Char) : Bool :=
  c.isDigit || ('a' ≤ c && c ≤ 'f') || ('A' ≤ c && c ≤ 'F')

/-- The value of a hexadecimal digit. -/
def hexDigitValue (c : Char) : Nat :=
  if c.isDigit then c.toNat - 48 else if c ≤ 'F' then c.toNat - 55 else c.toNat - 87

/-- The value of a string of hexadecimal digits, most significant first. -/
def hexValue (cs : List Char) : Nat :=
  cs.foldl (fun value c => 16 * value + hexDigitValue c) 0

/-- The value of a nonempty string of hexadecimal digits. -/
def hexadecimal? (cs : List Char) : Option Nat :=
  if cs ≠ [] ∧ cs.all isHexDigit then some (hexValue cs) else none

@[simp] theorem decimal?_nil : decimal? [] = none := rfl

@[simp] theorem hexadecimal?_nil : hexadecimal? [] = none := rfl

/-- The decimal text of a natural number reads back. -/
@[simp] theorem decimal?_toDigits (n : Nat) : decimal? (Nat.toDigits 10 n) = some n := by
  have hne : Nat.toDigits 10 n ≠ [] := Nat.toDigits_ne_nil
  have hall : (Nat.toDigits 10 n).all Char.isDigit = true := by
    simp only [List.all_eq_true]
    exact fun c hc => Nat.isDigit_of_mem_toDigits (by decide) (by decide) hc
  simp [decimal?, hne, hall, Nat.ofDigitChars_toDigits]

/-- The decimal text of an integer: digits without leading zeros, after a `-` when negative. -/
def intText (n : Int) : String :=
  match n with
  | .ofNat m => m.repr
  | .negSucc m => "-" ++ (m + 1).repr

end MacroAsm.Text
