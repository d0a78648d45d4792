/-
**Why a template is rejected.**

A rejection has a cause and a trace: the text of each template around the place, from the innermost
branch out to the whole template, each from its start to the end of the input.

Main definitions: `Rejection.Cause`, `Rejection`, `Rejection.within`, `Rejection.message`.
-/

import SafeTemplate.Decimal.Numeral
import SafeTemplate.Template.Placeholder

set_option autoImplicit false

namespace SafeTemplate

/-- What is wrong with a template. -/
inductive Rejection.Cause
  /-- Neither literal text nor a placeholder starts here, outside of all branches. -/
  | strayText (rest : Text)
  /-- A branch ends here, and no closing brace follows. -/
  | unclosedBranch (rest : Text)
  /-- No kind of placeholder has this symbol. -/
  | unknownSymbol (symbol : Char)
  /-- The markup that is open forbids a placeholder of this kind. -/
  | misplaced (kind : Placeholder.Kind) (residue : Residue)
  /-- A template ends with other markup open than at its start. -/
  | leftOpen (residue : Residue)
  /-- Branches nest deeper than the limit. -/
  | tooDeep (limit : Nat)
  deriving DecidableEq, Repr

/-- The wording of a cause. -/
def Rejection.Cause.message : Rejection.Cause → Text
  | .strayText rest => "Unexpected characters in template (".toList ++ rest ++ [')']
  | .unclosedBranch rest => "Unexpected characters in subtemplate (".toList ++ rest ++ [')']
  | .unknownSymbol symbol => "Unrecognized placeholder type (".toList ++ [symbol, ')']
  | .misplaced kind residue =>
      "Illegal insertion of placeholder (type ".toList ++ kind.symbol ::
        ") into HTML template (at ".toList ++ residue.text ++ [')']
  | .leftOpen residue => "HTML template is ill-formed (at ".toList ++ residue.text ++ [')']
  | .tooDeep limit =>
      "Conditional placeholders nested deeper than ".toList ++ Decimal.numeral limit ++
        " levels".toList

/-- A cause and the templates around it, the innermost first. -/
structure Rejection where
  cause : Rejection.Cause
  fragments : List Text
  deriving DecidableEq, Repr

namespace Rejection

/-- Adds the text of one more template around the place. -/
def within (rejection : Rejection) (template : Text) : Rejection :=
  { rejection with fragments := rejection.fragments ++ [template] }

/-- The wording of a rejection: the cause, then each template, from the inside out. -/
def message (rejection : Rejection) : Text :=
  rejection.cause.message ++ rejection.fragments.flatMap fun fragment => ": ".toList ++ fragment

end Rejection

end SafeTemplate
