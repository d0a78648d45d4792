/-
**Queries.**

A query is what stands in a substitution block: a constant, a path into the data of the project, or
the call of a helper.

Main definitions: `Step`, `Query`, `Complaint`.
-/

import SafeTemplate.Json.Value

set_option autoImplicit false

namespace SafeTemplate

/-- One step of a path: to a member of an object, or to an item of an array. -/
inductive Step
  | key (name : Text)
  | index (position : Nat)
  deriving DecidableEq, Repr

/-- A query. -/
inductive Query
  | constant (value : Json.Value)
  | path (root : Text) (steps : List Step)
  | call (helper : Text) (arguments : List Query)
  deriving Inhabited

/-- Why a text is no query. -/
inductive Query.Complaint
  /-- This text cannot stand here. -/
  | unexpected (text : Text)
  /-- The text ends where a query should start. -/
  | missing
  /-- No name follows a point. -/
  | propertyName
  /-- No closing bracket follows an index. -/
  | closingBracket
  /-- Neither a comma nor a closing parenthesis follows an argument. -/
  | separator
  /-- A bracket holds neither a text nor a position. -/
  | index
  /-- A position does not fit a 64-bit word. -/
  | indexTooLarge (digits : Text)
  /-- A text has no closing quote. -/
  | unterminated
  /-- These characters denote no number, or one out of range. -/
  | number (text : Text)
  deriving DecidableEq, Repr

/-- The wording of a complaint. -/
def Query.Complaint.message : Query.Complaint → Text
  | .unexpected text => "unexpected `".toList ++ text ++ ['`']
  | .missing => "empty expression".toList
  | .propertyName => "expected property name after `.`".toList
  | .closingBracket => "expected `]`".toList
  | .separator => "expected `,` or `)`".toList
  | .index => "expected string or index inside `[]`".toList
  | .indexTooLarge digits => "invalid index `".toList ++ digits ++ ['`']
  | .unterminated => "unterminated string".toList
  | .number text => "invalid number `".toList ++ text ++ ['`']

end SafeTemplate
