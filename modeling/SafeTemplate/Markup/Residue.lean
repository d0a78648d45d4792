/-
**What a piece of markup leaves open.**

The residue of a text is what remains of it once everything closed is erased.  It is empty outside of
tags; it ends in `='` or `="` inside a quoted attribute value; anything else means that a tag is open
at a place where no value stands.

Main definitions: `Residue`, `Residue.advance`, `Residue.isTopLevel`, `Residue.inQuotedAttribute`.

Main results: `Residue.advance_nil`, `Residue.inQuotedAttribute_iff`.
-/

import SafeTemplate.Markup.Erasure

set_option autoImplicit false

namespace SafeTemplate

/-- The markup that is open at a place in a template. -/
structure Residue where
  text : Text
  deriving DecidableEq, Repr

namespace Residue

open Markup

/-- Outside of every tag. -/
def topLevel : Residue :=
  ⟨[]⟩

/-- Whether the place is outside of every tag. -/
def isTopLevel (residue : Residue) : Bool :=
  residue.text.isEmpty

/-- Whether the place is inside an attribute value that a quote has opened. -/
def inQuotedAttribute (residue : Residue) : Bool :=
  match residue.text.reverse with
  | quote :: '=' :: _ => isQuote quote
  | _ => false

/-- The residue after `literal` as well.  An empty literal changes nothing; any other one has the
three erasing passes run over the old residue and itself. -/
def advance (residue : Residue) (literal : Text) : Residue :=
  if literal.isEmpty then residue
  else ⟨eraseClosed (eraseAttributes (eraseValues .outside (residue.text ++ literal)))⟩

@[simp] theorem isTopLevel_topLevel : topLevel.isTopLevel = true := rfl

theorem isTopLevel_iff {residue : Residue} : residue.isTopLevel ↔ residue = topLevel := by
  cases residue
  simp [isTopLevel, topLevel]

@[simp] theorem advance_nil (residue : Residue) : residue.advance [] = residue := rfl

theorem inQuotedAttribute_iff {residue : Residue} :
    residue.inQuotedAttribute ↔
      ∃ before quote, isQuote quote ∧ residue.text = before ++ ['=', quote] := by
  cases residue with
  | mk text =>
      unfold inQuotedAttribute
      constructor
      · intro h
        split at h
        · next quote before heq =>
            refine ⟨before.reverse, quote, h, ?_⟩
            rw [← List.reverse_inj]
            simpa using heq
        · cases h
      · rintro ⟨before, quote, hq, rfl⟩
        simpa using hq

end Residue

end SafeTemplate
