/-
**JSON string literals.**

A literal stands between double quotes.  The quote, the backslash and the control characters below
U+0020 are escaped; every other character stands for itself.

Main definition: `Json.quote`.

Main result: `Json.escapeChar_of_plain` — a plain character stands for itself.
-/

import SafeTemplate.Text.Basic

set_option autoImplicit false

namespace SafeTemplate.Json

/-- A hexadecimal digit, in lower case. -/
def hexDigit (n : Nat) : Char :=
  Nat.digitChar n

/-- How one character is written in a string literal. -/
def escapeChar (c : Char) : Text :=
  match c with
  | '"' => ['\\', '"']
  | '\\' => ['\\', '\\']
  | '\x08' => ['\\', 'b']
  | '\x0c' => ['\\', 'f']
  | '\n' => ['\\', 'n']
  | '\r' => ['\\', 'r']
  | '\t' => ['\\', 't']
  | c =>
      if c.toNat < 0x20 then ['\\', 'u', '0', '0', hexDigit (c.toNat / 16), hexDigit (c.toNat % 16)]
      else [c]

/-- The text between the quotes of a string literal. -/
def escape (s : Text) : Text :=
  s.flatMap escapeChar

theorem escapeChar_of_plain {c : Char} (hq : c ≠ '"') (hb : c ≠ '\\') (hc : 0x20 ≤ c.toNat) :
    escapeChar c = [c] := by
  unfold escapeChar
  split <;> first | contradiction | skip
  simp only [ite_eq_right_iff]
  omega

/-- The string literal for a text. -/
def quote (s : Text) : Text :=
  '"' :: (escape s ++ ['"'])

end SafeTemplate.Json
