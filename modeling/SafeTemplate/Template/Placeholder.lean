/-
**Placeholders.**

A placeholder starts with a head: a symbol and a snippet of host code in braces.  Four symbols are
known.  Text may be inserted outside of tags and inside quoted attribute values, elements only outside
of tags, and a choice anywhere, because its branches are checked by themselves.

Main definitions:

* `Placeholder.Head`, `Placeholder.Head.read?` — a symbol and a snippet, and how they are written;
* `Placeholder.Kind` — the four kinds, with `ofSymbol?`, `symbol` and `allowed`;
* `Placeholder`, `Placeholder.tree` — a placeholder and what it means.

Main results: `Placeholder.Kind.ofSymbol?_eq_some_iff`, `Placeholder.Head.read?_eq_some`.
-/

import SafeTemplate.Markup.Residue
import SafeTemplate.Template.Tree

set_option autoImplicit false

namespace SafeTemplate

namespace Placeholder

/-! ### Heads -/

/-- The start of a placeholder. -/
structure Head where
  symbol : Char
  snippet : Text
  deriving DecidableEq, Repr

namespace Head

/-- The characters of a snippet.  A backtick would end the snippet in the output, a closing brace
ends it in the template. -/
def isSnippetChar (c : Char) : Bool :=
  c != '}' && c != '`'

/-- How a head is written. -/
def written (head : Head) : Text :=
  head.symbol :: '{' :: (head.snippet ++ ['}'])

/-- The head at the start of the text, and what follows it.  Any character but a closing brace may be
its symbol. -/
def read? : Text → Option (Head × Text)
  | symbol :: '{' :: s =>
      if symbol = '}' then none
      else
        match s.dropWhile isSnippetChar with
        | '}' :: rest => some (⟨symbol, s.takeWhile isSnippetChar⟩, rest)
        | _ => none
  | _ => none

theorem read?_eq_some {s rest : Text} {head : Head} (h : read? s = some (head, rest)) :
    s = head.written ++ rest := by
  unfold read? at h
  split at h
  · next symbol s =>
      split at h
      · cases h
      · split at h
        · next heq =>
            cases h
            have whole : s.takeWhile isSnippetChar ++ s.dropWhile isSnippetChar = s :=
              List.takeWhile_append_dropWhile
            rw [heq] at whole
            simpa [written] using whole.symm
        · cases h
  · cases h

end Head

/-! ### Kinds -/

/-- The kinds of placeholders. -/
inductive Kind
  | escaped
  | element
  | elements
  | choice
  deriving DecidableEq, Repr

namespace Kind

/-- The symbol of a kind. -/
def symbol : Kind → Char
  | .escaped => '$'
  | .element => '&'
  | .elements => '@'
  | .choice => '?'

/-- The kind with the given symbol. -/
def ofSymbol? : Char → Option Kind
  | '$' => some .escaped
  | '&' => some .element
  | '@' => some .elements
  | '?' => some .choice
  | _ => none

theorem ofSymbol?_eq_some_iff {c : Char} {kind : Kind} :
    ofSymbol? c = some kind ↔ c = kind.symbol := by
  constructor
  · intro h
    unfold ofSymbol? at h
    split at h <;> cases h <;> rfl
  · rintro rfl
    cases kind <;> rfl

/-- Whether a placeholder of this kind may stand at a place in the markup. -/
def allowed (kind : Kind) (residue : Residue) : Bool :=
  match kind with
  | .escaped => residue.isTopLevel || residue.inQuotedAttribute
  | .element => residue.isTopLevel
  | .elements => residue.isTopLevel
  | .choice => true

end Kind

end Placeholder

/-! ### Placeholders -/

/-- A placeholder, with the meaning of its branches.  Only a choice has any. -/
structure Placeholder where
  kind : Placeholder.Kind
  snippet : Text
  branches : List Tree

/-- The meaning of a placeholder.  A branch that is missing means the empty text. -/
def Placeholder.tree (placeholder : Placeholder) : Tree :=
  match placeholder.kind with
  | .escaped => .escaped placeholder.snippet
  | .element => .element placeholder.snippet
  | .elements => .elements placeholder.snippet
  | .choice =>
      .choice placeholder.snippet (placeholder.branches.getD 0 .empty)
        (placeholder.branches.getD 1 .empty)

end SafeTemplate
