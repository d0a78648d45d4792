/-
**Blank characters.**

A character is blank if it has the Unicode property White_Space.  Blanks separate the tokens of a
query, and a style sheet is trimmed of them.

Main definitions: `Text.isBlank`, `Text.skipBlank`, `Text.trim`.
-/

import SafeTemplate.Text.Basic

set_option autoImplicit false

namespace SafeTemplate.Text

/-- The ranges of code points with the Unicode property White_Space, both ends included. -/
def blankRanges : List (Nat × Nat) :=
  [(0x09, 0x0D), (0x20, 0x20), (0x85, 0x85), (0xA0, 0xA0), (0x1680, 0x1680), (0x2000, 0x200A),
    (0x2028, 0x2029), (0x202F, 0x202F), (0x205F, 0x205F), (0x3000, 0x3000)]

/-- Whether a character is white space. -/
def isBlank (c : Char) : Bool :=
  blankRanges.any fun range => range.1 ≤ c.toNat && c.toNat ≤ range.2

/-- The blanks include the four that every reader of ASCII text knows. -/
theorem isBlank_of_isWhitespace {c : Char} (h : c.isWhitespace) : isBlank c := by
  simp only [Char.isWhitespace, Bool.or_eq_true, decide_eq_true_eq] at h
  rcases h with ((rfl | rfl) | rfl) | rfl <;> decide

/-- The property has 25 members. -/
example : (blankRanges.map fun range => range.2 + 1 - range.1).sum = 25 := by decide

/-- The text without the blanks at its start. -/
def skipBlank (s : Text) : Text :=
  s.dropWhile isBlank

/-- The text without the blanks at either end. -/
def trim (s : Text) : Text :=
  (skipBlank (skipBlank s).reverse).reverse

end SafeTemplate.Text
