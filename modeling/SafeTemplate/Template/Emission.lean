/-
**A template as a host expression.**

Main definitions:

* `Tree.emit` — the expression for a tree;
* `Template.compile` — the expression for a template that stands where some markup is open;
* `Template.compileElement` — an object with the template as its content, which another template can
  insert as an element.
-/

import SafeTemplate.Host
import SafeTemplate.Template.Reader

set_option autoImplicit false

namespace SafeTemplate

namespace Tree

mutual

/-- The host expression for a tree. -/
def emit (host : Host) : Tree → Text
  | .empty => Host.emptyText
  | .literal text => host.literal text
  | .escaped snippet => Host.escapeCall (host.embed snippet)
  | .element snippet => host.content (host.embed snippet)
  | .elements snippet => Host.contents (host.embed snippet)
  | .choice condition yes no => host.choose (host.embed condition) (yes.emit host) (no.emit host)
  | .sequence parts => if parts.isEmpty then Host.emptyText else Host.concat (emitParts host parts)

/-- The host expressions for some trees. -/
def emitParts (host : Host) : List Tree → List Text
  | [] => []
  | part :: more => part.emit host :: emitParts host more

end

theorem emitParts_eq_map (host : Host) (parts : List Tree) :
    emitParts host parts = parts.map (emit host) := by
  induction parts with
  | nil => simp [emitParts]
  | cons part more ih => simp [emitParts, ih]

end Tree

namespace Template

/-- The host expression for a template that stands where `residue` is open. -/
def compile (host : Host) (residue : Residue) (template : Text) : Except Rejection Text :=
  match parse residue template with
  | .error rejection => .error rejection
  | .ok tree => .ok (tree.emit host)

/-- The host expression for an object with the template as its content. -/
def compileElement (host : Host) (template : Text) : Except Rejection Text :=
  match compile host Residue.topLevel template with
  | .error rejection => .error rejection
  | .ok expression => .ok (host.wrap expression)

end Template

end SafeTemplate
