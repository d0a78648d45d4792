/-
**A template that is being read.**

A frame gathers the parts of one template, or of one branch, in their order.  It knows what markup was
open at its start and what is open now, so each placeholder is checked where it stands.  A frame can
be closed only where it was opened: with the same markup open.

Main definitions: `Frame`, `Frame.opened`, `Frame.addLiteral`, `Frame.addPlaceholder`, `Frame.close`.
-/

import SafeTemplate.Template.Rejection

set_option autoImplicit false

namespace SafeTemplate

/-- The parts of a template so far, and the markup that was open at its start and is open here. -/
structure Frame where
  start : Residue
  here : Residue
  parts : List Tree

namespace Frame

/-- A template without parts. -/
def opened (residue : Residue) : Frame :=
  ⟨residue, residue, []⟩

/-- Adds literal text, with its escapes resolved. -/
def addLiteral (frame : Frame) (text : Text) : Frame :=
  ⟨frame.start, frame.here.advance text, frame.parts ++ [.literal text]⟩

/-- Adds a placeholder, if one of its kind may stand here. -/
def addPlaceholder (frame : Frame) (placeholder : Placeholder) : Except Rejection.Cause Frame :=
  if placeholder.kind.allowed frame.here then
    .ok ⟨frame.start, frame.here, frame.parts ++ [placeholder.tree]⟩
  else .error (.misplaced placeholder.kind frame.here)

/-- The meaning of the whole template, if it leaves open what was open at its start. -/
def close (frame : Frame) : Except Rejection.Cause Tree :=
  if frame.start ≠ frame.here then .error (.leftOpen frame.here)
  else if frame.parts.isEmpty then .ok .empty
  else .ok (.sequence frame.parts)

end Frame

end SafeTemplate
