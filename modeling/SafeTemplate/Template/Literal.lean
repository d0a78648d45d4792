/-
**Literal text in a template.**

Literal text is a sequence of units: a character other than `{`, `}` and the backslash, or a backslash
and the character it escapes, which may be any but a line terminator.  A unit that stands right before
a `{` is the symbol of a placeholder and no literal text.

Main definitions:

* `Literal.span` — the units at the start of a text, and the rest;
* `Literal.read?` — the same, if there is at least one unit;
* `Literal.unescape` — the text with every escape resolved.

Main results:

* `Literal.span_append` — the two parts of `span` are the text;
* `Literal.read?_eq_some` — a run is not empty, and it and its rest are the text.
-/

import SafeTemplate.Text.Basic

set_option autoImplicit false

namespace SafeTemplate.Literal

/-- The characters that no backslash escapes: LF, CR, and the line and paragraph separators. -/
def isLineTerminator (c : Char) : Bool :=
  c == '\n' || c == '\r' || c == '\u2028' || c == '\u2029'

/-- Whether the next character opens a brace. -/
def opensBrace : Text → Bool
  | '{' :: _ => true
  | _ => false

/-- The longest run of units that no `{` follows, and the rest of the text. -/
def span : Text → Text × Text
  | [] => ([], [])
  | ['\\'] => ([], ['\\'])
  | '\\' :: c :: s =>
      if isLineTerminator c || opensBrace s then ([], '\\' :: c :: s)
      else ('\\' :: c :: (span s).1, (span s).2)
  | c :: s =>
      -- The last character before a brace is the symbol of a placeholder.
      if c == '{' || c == '}' || opensBrace s then ([], c :: s)
      else (c :: (span s).1, (span s).2)

theorem span_append (s : Text) : (span s).1 ++ (span s).2 = s := by
  fun_induction span s <;> simp_all

/-- The run of units at the start of the text, and what follows it. -/
def read? (s : Text) : Option (Text × Text) :=
  if (span s).1.isEmpty then none else some (span s)

theorem read?_eq_some {s run rest : Text} (h : read? s = some (run, rest)) :
    run ≠ [] ∧ s = run ++ rest := by
  unfold read? at h
  split at h
  · cases h
  · next hne =>
      have hs := span_append s
      rw [Option.some.inj h] at hs hne
      exact ⟨by simpa using hne, hs.symm⟩

/-- The text with each escape replaced by the character it escapes, from left to right. -/
def unescape : Text → Text
  | [] => []
  | ['\\'] => ['\\']
  | '\\' :: c :: s => if isLineTerminator c then '\\' :: unescape (c :: s) else c :: unescape s
  | c :: s => c :: unescape s

end SafeTemplate.Literal
