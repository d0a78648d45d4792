/-
**What is inserted cannot leave its place in the markup.**

When a template is output, a branch is chosen at each choice, and what remains is a sequence of
literal texts and inserted values.  A reader of the output sees the literal texts alone decide where
each value stands.  For a template that is accepted at top level this is always a harmless place:
elements stand in text, and escaped text stands in text or in a value in quotes.

The residues that are kept while a template is read do not see every place rightly; an open tag with a
stray `>` in a value may look like an open value.  Such a residue has brought a character that does not
belong, and no text makes it empty again, so the template is refused in the end
(`Markup.Position.follow?_advance`).

Main definitions:

* `Piece`, `Piece.outline` — what is output, and its literal text;
* `Tree.Unfolds` — what a tree outputs, for every choice of branches;
* `Piece.MayStand` — the harmless places.

Main results:

* `Tree.exists_unfolds` — every tree outputs something;
* `Source.leads_unfolds` — every output takes the residues the way of its source;
* `Template.parse_injection_safe` — **what an accepted template inserts stands at a harmless place**.
-/

import SafeTemplate.Proofs.Grammar
import SafeTemplate.Proofs.Position

set_option autoImplicit false

namespace SafeTemplate

open Markup (Position Settled)

/-- A piece of output: literal text, or the value of a snippet. -/
inductive Piece
  | literal (text : Text)
  | escaped (snippet : Text)
  | element (snippet : Text)
  | elements (snippet : Text)
  deriving DecidableEq

namespace Piece

/-- The literal text of a piece. -/
def text : Piece → Text
  | literal text => text
  | escaped _ => []
  | element _ => []
  | elements _ => []

/-- The literal text of some pieces. -/
def outline (pieces : List Piece) : Text :=
  pieces.flatMap text

/-- Where a piece does no harm. -/
def MayStand : Piece → Position → Prop
  | literal _, _ => True
  | escaped _, position => position = .text ∨ ∃ quote, position = .value quote
  | element _, position => position = .text
  | elements _, position => position = .text

/-- Where a piece may stand by the residue. -/
def allowed : Piece → Residue → Bool
  | literal _, _ => true
  | escaped _, residue => Placeholder.Kind.escaped.allowed residue
  | element _, residue => Placeholder.Kind.element.allowed residue
  | elements _, residue => Placeholder.Kind.elements.allowed residue

/-- The residue after some pieces. -/
def advance (residue : Residue) (pieces : List Piece) : Residue :=
  pieces.foldl (fun residue piece => residue.advance piece.text) residue

/-- Every piece may stand, by the residue, where it does. -/
def Allowed (residue : Residue) (pieces : List Piece) : Prop :=
  ∀ before piece after, pieces = before ++ piece :: after →
    piece.allowed (advance residue before) = true

@[simp] theorem outline_nil : outline [] = [] := rfl

@[simp] theorem outline_cons (piece : Piece) (pieces : List Piece) :
    outline (piece :: pieces) = piece.text ++ outline pieces := rfl

@[simp] theorem advance_nil (residue : Residue) : advance residue [] = residue := rfl

@[simp] theorem advance_cons (residue : Residue) (piece : Piece) (pieces : List Piece) :
    advance residue (piece :: pieces) = advance (residue.advance piece.text) pieces := rfl

theorem advance_append (residue : Residue) (pieces more : List Piece) :
    advance residue (pieces ++ more) = advance (advance residue pieces) more :=
  List.foldl_append

theorem Allowed.nil (residue : Residue) : Allowed residue [] := by
  intro before piece after h
  simp at h

theorem Allowed.cons {residue : Residue} {piece : Piece} {pieces : List Piece}
    (h : piece.allowed residue = true) (hmore : Allowed (residue.advance piece.text) pieces) :
    Allowed residue (piece :: pieces) := by
  intro before piece' after heq
  cases before with
  | nil =>
      obtain ⟨rfl, -⟩ := List.cons.inj heq
      exact h
  | cons first before =>
      obtain ⟨rfl, hrest⟩ := List.cons.inj heq
      exact hmore before piece' after hrest

theorem Allowed.append {residue : Residue} {pieces more : List Piece} (h : Allowed residue pieces)
    (hmore : Allowed (advance residue pieces) more) : Allowed residue (pieces ++ more) := by
  induction pieces generalizing residue with
  | nil => exact hmore
  | cons piece pieces ih =>
      refine Allowed.cons (h [] piece pieces rfl) (ih ?_ hmore)
      intro before piece' after heq
      exact h (piece :: before) piece' after (by rw [heq, List.cons_append])

end Piece

/-- What a tree outputs, one branch being taken at each choice. -/
inductive Tree.Unfolds : Tree → List Piece → Prop
  | empty : Unfolds .empty []
  | literal (text : Text) : Unfolds (.literal text) [.literal text]
  | escaped (snippet : Text) : Unfolds (.escaped snippet) [.escaped snippet]
  | element (snippet : Text) : Unfolds (.element snippet) [.element snippet]
  | elements (snippet : Text) : Unfolds (.elements snippet) [.elements snippet]
  | yes (condition : Text) {yes no : Tree} {pieces : List Piece} :
      Unfolds yes pieces → Unfolds (.choice condition yes no) pieces
  | no (condition : Text) {yes no : Tree} {pieces : List Piece} :
      Unfolds no pieces → Unfolds (.choice condition yes no) pieces
  | nil : Unfolds (.sequence []) []
  | cons {part : Tree} {parts : List Tree} {pieces more : List Piece} :
      Unfolds part pieces → Unfolds (.sequence parts) more →
        Unfolds (.sequence (part :: parts)) (pieces ++ more)

namespace Tree

mutual

/-- Every tree outputs something. -/
theorem exists_unfolds : (tree : Tree) → ∃ pieces, tree.Unfolds pieces
  | .empty => ⟨_, .empty⟩
  | .literal text => ⟨_, .literal text⟩
  | .escaped snippet => ⟨_, .escaped snippet⟩
  | .element snippet => ⟨_, .element snippet⟩
  | .elements snippet => ⟨_, .elements snippet⟩
  | .choice condition yes _ =>
      have ⟨pieces, h⟩ := exists_unfolds yes
      ⟨pieces, .yes condition h⟩
  | .sequence parts => exists_unfolds_parts parts

theorem exists_unfolds_parts : (parts : List Tree) → ∃ pieces, (sequence parts).Unfolds pieces
  | [] => ⟨_, .nil⟩
  | part :: parts =>
      have ⟨pieces, h⟩ := exists_unfolds part
      have ⟨more, hmore⟩ := exists_unfolds_parts parts
      ⟨pieces ++ more, .cons h hmore⟩

end

/-- The first part is output, and then the others. -/
theorem unfolds_ofParts_cons {part : Tree} {parts : List Tree} {pieces : List Piece}
    (h : (ofParts (part :: parts)).Unfolds pieces) :
    ∃ first more, part.Unfolds first ∧ (ofParts parts).Unfolds more ∧ pieces = first ++ more := by
  cases h with
  | @cons _ _ first more hfirst hmore =>
      refine ⟨first, more, hfirst, ?_, rfl⟩
      cases parts with
      | nil =>
          cases hmore
          exact .empty
      | cons part parts => exact hmore

theorem unfolds_ofParts_nil {pieces : List Piece} (h : (ofParts []).Unfolds pieces) :
    pieces = [] := by
  cases h
  rfl

end Tree

/-! ### The way of the residues -/

/-- An insertion is output where its kind is allowed. -/
theorem Insertion.allowed_unfolds {kind : Insertion} {snippet : Text} {residue : Residue}
    (h : kind.kind.allowed residue = true) {pieces : List Piece}
    (hpieces : (kind.tree snippet).Unfolds pieces) :
    Piece.Allowed residue pieces ∧ Piece.advance residue pieces = residue := by
  cases kind with
  | escaped =>
      cases hpieces
      exact ⟨.cons h (.nil _), rfl⟩
  | element =>
      cases hpieces
      exact ⟨.cons h (.nil _), rfl⟩
  | elements =>
      cases hpieces
      exact ⟨.cons h (.nil _), rfl⟩

/-- Pieces that are allowed one part after the other. -/
theorem Piece.allowed_append {start middle stop : Residue} {pieces more : List Piece}
    (h : Piece.Allowed start pieces ∧ Piece.advance start pieces = middle)
    (hmore : Piece.Allowed middle more ∧ Piece.advance middle more = stop) :
    Piece.Allowed start (pieces ++ more) ∧ Piece.advance start (pieces ++ more) = stop := by
  obtain ⟨hallowed, rfl⟩ := h
  obtain ⟨hallowedMore, rfl⟩ := hmore
  exact ⟨hallowed.append hallowedMore, Piece.advance_append _ _ _⟩

/-- **Whatever a source outputs takes the residues its way**: a branch that is output leads back to
where its choice stands, as does the branch that is not. -/
theorem Source.leads_unfolds {source : Source} {start stop : Residue} (h : source.Leads start stop)
    {pieces : List Piece} (hpieces : source.tree.Unfolds pieces) :
    Piece.Allowed start pieces ∧ Piece.advance start pieces = stop := by
  induction source generalizing start stop pieces with
  | nil =>
      obtain rfl := Tree.unfolds_ofParts_nil hpieces
      exact ⟨.nil _, h⟩
  | literal units nonempty more ih =>
      obtain ⟨first, rest, hfirst, hrest, rfl⟩ := Tree.unfolds_ofParts_cons hpieces
      cases hfirst
      obtain ⟨hallowed, hstop⟩ := ih h hrest
      exact ⟨.cons rfl hallowed, hstop⟩
  | insertion kind snippet more ih =>
      obtain ⟨first, rest, hfirst, hrest, rfl⟩ := Tree.unfolds_ofParts_cons hpieces
      exact Piece.allowed_append (Insertion.allowed_unfolds h.1 hfirst) (ih h.2 hrest)
  | choice condition more ih =>
      obtain ⟨first, rest, hfirst, hrest, rfl⟩ := Tree.unfolds_ofParts_cons hpieces
      refine Piece.allowed_append ?_ (ih h hrest)
      cases hfirst with
      | yes _ hbranch =>
          cases hbranch
          exact ⟨.nil _, rfl⟩
      | no _ hbranch =>
          cases hbranch
          exact ⟨.nil _, rfl⟩
  | choiceThen condition yes more ihYes ihMore =>
      obtain ⟨first, rest, hfirst, hrest, rfl⟩ := Tree.unfolds_ofParts_cons hpieces
      refine Piece.allowed_append ?_ (ihMore h.2 hrest)
      cases hfirst with
      | yes _ hbranch => exact ihYes h.1 hbranch
      | no _ hbranch =>
          cases hbranch
          exact ⟨.nil _, rfl⟩
  | choiceThenElse condition yes no more ihYes ihNo ihMore =>
      obtain ⟨first, rest, hfirst, hrest, rfl⟩ := Tree.unfolds_ofParts_cons hpieces
      refine Piece.allowed_append ?_ (ihMore h.2.2 hrest)
      cases hfirst with
      | yes _ hbranch => exact ihYes h.1 hbranch
      | no _ hbranch => exact ihNo h.2.1 hbranch

/-! ### The places of the pieces -/

namespace Piece

theorem settled_advance {residue : Residue} (h : Settled residue.text) (pieces : List Piece) :
    Settled (advance residue pieces).text := by
  induction pieces generalizing residue with
  | nil => exact h
  | cons piece pieces ih => exact ih (Residue.settled_advance h piece.text)

/-- A run of pieces ends, for the tokenizer, where its residue does. -/
theorem follow?_advance (residue : Residue) (pieces : List Piece) :
    Position.text.follow? (advance residue pieces).text =
      Position.text.follow? (residue.text ++ outline pieces) := by
  induction pieces generalizing residue with
  | nil => simp
  | cons piece pieces ih =>
      rw [advance_cons, ih, Position.follow?_append, Position.follow?_advance,
        ← Position.follow?_append, outline_cons, List.append_assoc]

/-- Where a residue without stray characters allows a piece, it does no harm. -/
theorem mayStand_of_allowed {piece : Piece} {residue : Residue} (hsettled : Settled residue.text)
    {position : Position} (hposition : Position.text.follow? residue.text = some position)
    (h : piece.allowed residue = true) : piece.MayStand position := by
  have htop : residue.isTopLevel = true → position = .text := by
    intro htop
    obtain rfl := Residue.isTopLevel_iff.1 htop
    exact (Option.some.inj hposition).symm
  cases piece with
  | literal text => exact trivial
  | escaped snippet =>
      rcases Bool.or_eq_true_iff.1 h with hres | hres
      · exact Or.inl (htop hres)
      · exact Or.inr (Position.exists_value_of_inQuotedAttribute hsettled hposition hres)
  | element snippet => exact htop h
  | elements snippet => exact htop h

/-- Pieces that lead from top level back to it end in text, and each of them stands at a harmless
place. -/
theorem mayStand_of_closed {pieces : List Piece} (hallowed : Allowed .topLevel pieces)
    (hclosed : advance .topLevel pieces = .topLevel) :
    (∀ before piece after, pieces = before ++ piece :: after →
        piece.MayStand (Position.text.run (outline before))) ∧
      Position.text.run (outline pieces) = .text := by
  have hfollow : Position.text.follow? (outline pieces) = some .text := by
    have h := follow?_advance .topLevel pieces
    rw [hclosed] at h
    exact h.symm
  refine ⟨?_, Position.run_of_follow? hfollow⟩
  rintro before piece after rfl
  -- no stray character comes up to `piece`, as none comes in all
  have hsplit : outline (before ++ piece :: after) = outline before ++ outline (piece :: after) :=
    List.flatMap_append
  rw [hsplit] at hfollow
  obtain ⟨position, hbefore, -⟩ := Position.exists_follow?_of_append hfollow
  rw [Position.run_of_follow? hbefore]
  refine mayStand_of_allowed (settled_advance Residue.settled_topLevel before) ?_
    (hallowed before piece after rfl)
  rw [follow?_advance]
  exact hbefore

end Piece

/-- **What an accepted template inserts stands at a harmless place.**  Whatever branches are taken, the
tokenizer is in text where elements are inserted, in text or in a value in quotes where escaped text
is, and in text at the end. -/
theorem Template.parse_injection_safe {template : Text} {tree : Tree}
    (h : Template.parse .topLevel template = .ok tree) :
    (∃ pieces, tree.Unfolds pieces) ∧
      ∀ pieces, tree.Unfolds pieces →
        (∀ before piece after, pieces = before ++ piece :: after →
            piece.MayStand (Position.text.run (Piece.outline before))) ∧
          Position.text.run (Piece.outline pieces) = .text := by
  refine ⟨tree.exists_unfolds, ?_⟩
  intro pieces hpieces
  obtain ⟨source, -, rfl, hderives⟩ := Template.parseWithin_eq_ok_iff.1 h
  obtain ⟨hallowed, hclosed⟩ := source.leads_unfolds hderives.leads hpieces
  exact Piece.mayStand_of_closed hallowed hclosed

/-- The first tag leaves a residue although it is closed; the text behind it makes up for that. -/
theorem Template.parse_injection_safe_glued :
    ∃ tree, Template.parse .topLevel
        "<a b=''c d>?{k}x<i e='?{p}{${q}}'>@{s}".toList = .ok tree ∧
      ∀ pieces, tree.Unfolds pieces →
        (∀ before piece after, pieces = before ++ piece :: after →
            piece.MayStand (Position.text.run (Piece.outline before))) ∧
          Position.text.run (Piece.outline pieces) = .text := by
  have h : Template.parse .topLevel "<a b=''c d>?{k}x<i e='?{p}{${q}}'>@{s}".toList =
      .ok (.sequence [.literal "<a b=''c d>".toList, .choice ['k'] .empty .empty,
        .literal "x<i e='".toList, .choice ['p'] (.sequence [.escaped ['q']]) .empty,
        .literal "'>".toList, .elements ['s']]) := by cbv
  exact ⟨_, h, (parse_injection_safe h).2⟩

end SafeTemplate
