/-
**Reading a template.**

A template is read from left to right: literal text as far as it goes, then a placeholder, and so on.
The head of a choice is followed by up to two branches, each a template in braces.  A branch is read
with the markup open that is open at the choice, and goes one level deeper.

Main definitions:

* `Template.readBranches`, `Template.readPlaceholder` — the branches of a choice, and any placeholder;
* `Template.readParts` — the parts of a template;
* `Template.readFrame` — a template up to where it cannot go on;
* `Template.parseWithin`, `Template.parse` — a whole template.
-/

import SafeTemplate.Template.Frame
import SafeTemplate.Template.Literal

set_option autoImplicit false

namespace SafeTemplate.Template

/-- Reads up to `count` branches, each a template in braces.  `branch` reads a template up to where it
cannot go on; the closing brace must stand there. -/
def readBranches (branch : Text → Except Rejection (Tree × Text)) :
    (count : Nat) → Text → Except Rejection (List Tree × Text)
  | count + 1, '{' :: s =>
      match branch s with
      | .error rejection => .error rejection
      | .ok (tree, '}' :: rest) =>
          match readBranches branch count rest with
          | .error rejection => .error rejection
          | .ok (trees, rest) => .ok (tree :: trees, rest)
      | .ok (_, rest) => .error ⟨.unclosedBranch rest, []⟩
  -- No brace opens here, or both branches have been read.
  | _, s => .ok ([], s)

/-- Reads what follows a head: two branches at most if it is the head of a choice, nothing else. -/
def readPlaceholder (branch : Text → Except Rejection (Tree × Text)) (head : Placeholder.Head)
    (s : Text) : Except Rejection (Placeholder × Text) :=
  match Placeholder.Kind.ofSymbol? head.symbol with
  | none => .error ⟨.unknownSymbol head.symbol, []⟩
  | some .choice =>
      match readBranches branch 2 s with
      | .error rejection => .error rejection
      | .ok (branches, rest) => .ok (⟨.choice, head.snippet, branches⟩, rest)
  | some kind => .ok (⟨kind, head.snippet, []⟩, s)

/-- Reads parts and adds them to the frame, up to where neither literal text nor a placeholder starts.
Each part takes at least one character, so `fuel` is enough if it is the length of the text. -/
def readParts (branch : Residue → Text → Except Rejection (Tree × Text)) :
    (fuel : Nat) → Frame → Text → Except Rejection (Frame × Text)
  | 0, frame, s => .ok (frame, s)
  | fuel + 1, frame, s =>
      match Literal.read? s with
      | some (run, rest) => readParts branch fuel (frame.addLiteral (Literal.unescape run)) rest
      | none =>
          match Placeholder.Head.read? s with
          | none => .ok (frame, s)
          | some (head, rest) =>
              -- The branches come first: a fault in them goes before a misplaced placeholder.
              match readPlaceholder (branch frame.here) head rest with
              | .error rejection => .error rejection
              | .ok (placeholder, rest) =>
                  match frame.addPlaceholder placeholder with
                  | .error cause => .error ⟨cause, []⟩
                  | .ok frame => readParts branch fuel frame rest

/-- Reads a template up to where it cannot go on.  `levels` more levels may be entered, this one
included; `limit` is how many branches there may be around a place in the whole template.  Every
rejection gets the text of this template added to its trace. -/
def readFrame (limit : Nat) :
    (levels : Nat) → Residue → Text → Except Rejection (Tree × Text)
  | 0, _, s => .error ⟨.tooDeep limit, [s]⟩
  | levels + 1, residue, s =>
      match readParts (readFrame limit levels) s.length (Frame.opened residue) s with
      | .error rejection => .error (rejection.within s)
      | .ok (frame, rest) =>
          match frame.close with
          | .error cause => .error ⟨cause, [s]⟩
          | .ok tree => .ok (tree, rest)

/-- The meaning of a template that stands where `residue` is open.  Branches nest at most `limit`
deep. -/
def parseWithin (limit : Nat) (residue : Residue) (template : Text) : Except Rejection Tree :=
  match readFrame limit (limit + 1) residue template with
  | .error rejection => .error rejection
  | .ok (tree, []) => .ok tree
  | .ok (_, rest) => .error ⟨.strayText rest, [template]⟩

/-- How deep branches nest unless another limit is given. -/
def nestingLimit : Nat := 128

/-- The meaning of a template that stands where `residue` is open. -/
def parse (residue : Residue) (template : Text) : Except Rejection Tree :=
  parseWithin nestingLimit residue template

end SafeTemplate.Template
