/-
**What a template means.**

A template is a text with placeholders.  Its meaning is a tree: literal text, the placeholders with
the snippet of host code each one holds, choices between two templates, and sequences of these.

Main definition: `Tree`.
-/

import SafeTemplate.Text.Basic

set_option autoImplicit false

namespace SafeTemplate

/-- The meaning of a template.  Snippets are host code, carried through untouched. -/
inductive Tree
  /-- The empty text. -/
  | empty
  /-- A text that is output as it is. -/
  | literal (text : Text)
  /-- A snippet whose value is output as escaped text. -/
  | escaped (snippet : Text)
  /-- A snippet whose value is an element; its content is output. -/
  | element (snippet : Text)
  /-- A snippet whose value is a list of elements; their contents are output. -/
  | elements (snippet : Text)
  /-- One of two templates, as the value of a snippet decides. -/
  | choice (condition : Text) (yes no : Tree)
  /-- Several templates, one after the other. -/
  | sequence (parts : List Tree)
  deriving Inhabited

end SafeTemplate
