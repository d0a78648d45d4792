/-
**Character references.**

The five characters that mean something to a reader of HTML are written as character references, so
that any text can stand between tags or inside a quoted attribute value.

Main definition: `Text.escapeHtml`.

Main result: `Text.escapeHtml_append`.
-/

import SafeTemplate.Text.Basic

set_option autoImplicit false

namespace SafeTemplate.Text

/-- How one character is written in HTML. -/
def entity : Char → Text
  | '&' => "&amp;".toList
  | '<' => "&lt;".toList
  | '>' => "&gt;".toList
  | '"' => "&quot;".toList
  | '\'' => "&#39;".toList
  | c => [c]

/-- The text with the five characters `&`, `<`, `>`, `"` and the apostrophe written as references. -/
def escapeHtml (s : Text) : Text :=
  s.flatMap entity

theorem escapeHtml_append (s t : Text) : escapeHtml (s ++ t) = escapeHtml s ++ escapeHtml t := by
  simp [escapeHtml]

end SafeTemplate.Text
