/-
**Quoted texts in diagnostics.**

A diagnostic shows a text between double quotes.  Quotes, backslashes, and characters without a
shape of their own are written with a backslash.

Main definitions: `Text.quoted`, `Text.quotedList`.
-/

import SafeTemplate.Text.Shape

set_option autoImplicit false

namespace SafeTemplate.Text

/-- How a diagnostic shows one character. -/
def shownChar (c : Char) : Text :=
  match c with
  | '\x00' => ['\\', '0']
  | '\t' => ['\\', 't']
  | '\n' => ['\\', 'n']
  | '\r' => ['\\', 'r']
  | '"' => ['\\', '"']
  | '\\' => ['\\', '\\']
  | c =>
      if hasShape c then [c] else '\\' :: 'u' :: '{' :: (Nat.toDigits 16 c.toNat ++ ['}'])

/-- How a diagnostic shows a text. -/
def quoted (s : Text) : Text :=
  '"' :: (s.flatMap shownChar ++ ['"'])

/-- How a diagnostic shows some texts. -/
def quotedList (texts : List Text) : Text :=
  '[' :: (", ".toList.intercalate (texts.map quoted) ++ [']'])

end SafeTemplate.Text
