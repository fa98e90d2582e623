import MacroAsm.Text.Extender
import MacroAsm.Text.Printable

/-!
# Quoted text and safe text

Two ways to write a text into a log line.  A quoted text stands between double quotes, and
everything in it that has no form of its own on a page is escaped.  A safe text has no quotes; only
the controls that steer a terminal are escaped.

## Main definitions

* `isHidden` — the characters without a form of their own.
* `quoted` — a text in double quotes.
* `safe` — a text without terminal controls.
-/

namespace MacroAsm.Text

/-- A character without a form of its own on a page. -/
def isHidden (c : Char) : Bool :=
  isExtender c || !isPrintable c

/-- The escape of a character by its code point. -/
def codeEscape (c : Char) : List Char :=
  ['\\', 'u', '\x7b'] ++ Nat.toDigits 16 c.toNat ++ ['\x7d']

/-- A character inside double quotes. -/
def quotedChar (c : Char) : List Char :=
  match c with
  | '\x00' => ['\\', '0']
  | '\t' => ['\\', 't']
  | '\r' => ['\\', 'r']
  | '\n' => ['\\', 'n']
  | '\\' => ['\\', '\\']
  | '"' => ['\\', '"']
  | c => if isHidden c then codeEscape c else [c]

/-- A text in double quotes. -/
def quoted (s : String) : String :=
  String.ofList ('"' :: s.toList.flatMap quotedChar ++ ['"'])

/-- A character of a safe text. -/
def safeChar (c : Char) : List Char :=
  match c with
  | '\x1b' => "\\x1b".toList
  | '\x07' => "\\x07".toList
  | '\x08' => "\\x08".toList
  | '\x0c' => "\\x0c".toList
  | '\x7f' => "\\x7f".toList
  | c => if 0x80 ≤ c.toNat && c.toNat ≤ 0x9F then codeEscape c else [c]

/-- A text without terminal controls. -/
def safe (s : String) : String :=
  String.ofList (s.toList.flatMap safeChar)

end MacroAsm.Text
