/-
**Templates compose.**

Two templates that are accepted at top level are accepted one after the other, and a choice between two
templates is accepted where both of them are.  The second is plain, once templates are known by their
sources.  The first has a seam: a literal text at the end of one template and another at the start of
the next are read as one, and their markup is erased in one go.  Nothing is open at the seam, so the
residue behind it is the same (`Markup.leftOpen_append`).

Main definitions:

* `Tree.parts`, `Tree.joinParts`, `Tree.append` — one tree after the other;
* `Source.prepend`, `Source.append` — one source after the other.

Main results:

* `Source.text_append`, `Source.parts_append`, `Source.Derives.append` — what the joined source is
  written as, what it means, and where it leads;
* `Template.parseWithin_append`, `Template.parseWithin_choice` — templates one after the other, and in
  the branches of a choice;
* `Template.parse_composes` — **accepted templates compose**.
-/

import SafeTemplate.Proofs.Grammar
import SafeTemplate.Proofs.Seam

set_option autoImplicit false

namespace SafeTemplate

open Markup (Position)

/-! ### Trees -/

namespace Tree

/-- The parts of the tree of a template. -/
def parts : Tree → List Tree
  | empty => []
  | sequence parts => parts
  | tree => [tree]

/-- Some parts after others.  Two literal texts that meet become one. -/
def joinParts (parts more : List Tree) : List Tree :=
  match parts.getLast?, more with
  | some (literal text), literal text' :: more =>
      parts.dropLast ++ literal (text ++ text') :: more
  | _, _ => parts ++ more

/-- The tree of two templates, one after the other. -/
def append (tree after : Tree) : Tree :=
  ofParts (joinParts tree.parts after.parts)

theorem parts_ofParts (parts : List Tree) : (ofParts parts).parts = parts := by
  cases parts with
  | nil => rfl
  | cons part parts => rfl

/-- Only the last part meets what comes after. -/
theorem joinParts_cons {parts : List Tree} (h : parts ≠ []) (part : Tree) (more : List Tree) :
    joinParts (part :: parts) more = part :: joinParts parts more := by
  have hlast : (part :: parts).getLast? = parts.getLast? := List.getLast?_cons_of_ne_nil h
  have hrest : (part :: parts).dropLast = part :: parts.dropLast := List.dropLast_cons_of_ne_nil h
  unfold joinParts
  rw [hlast, hrest]
  split
  · rfl
  · rfl

/-- A placeholder meets nothing. -/
theorem joinParts_cons_placeholder {part : Tree} (h : ∀ text, part ≠ literal text)
    (parts more : List Tree) : joinParts (part :: parts) more = part :: joinParts parts more := by
  cases parts with
  | nil =>
      cases part with
      | literal text => exact absurd rfl (h text)
      | _ => rfl
  | cons next parts => exact joinParts_cons (List.cons_ne_nil _ _) part more

end Tree

/-! ### Sources -/

namespace Source

/-- Literal text before a source.  It becomes one with literal text that the source starts with. -/
def prepend (units : List LiteralUnit) (nonempty : units ≠ []) : Source → Source
  | literal units' _ more =>
      literal (units ++ units') (List.append_ne_nil_of_left_ne_nil nonempty units') more
  | source => literal units nonempty source

/-- One source after the other. -/
def append : Source → Source → Source
  | nil, after => after
  | literal units nonempty more, after => prepend units nonempty (more.append after)
  | insertion kind snippet more, after => insertion kind snippet (more.append after)
  | choice condition more, after => choice condition (more.append after)
  | choiceThen condition yes more, after => choiceThen condition yes (more.append after)
  | choiceThenElse condition yes no more, after =>
      choiceThenElse condition yes no (more.append after)

section Prepend

variable {units : List LiteralUnit} {nonempty : units ≠ []}

theorem text_prepend (source : Source) :
    (prepend units nonempty source).text = Literal.written units ++ source.text := by
  cases source with
  | literal units' nonempty' more => simp [prepend, text]
  | _ => rfl

theorem depth_prepend (source : Source) : (prepend units nonempty source).depth = source.depth := by
  cases source <;> rfl

theorem Alternates.prepend {source : Source} (h : source.Alternates) :
    (prepend units nonempty source).Alternates := by
  cases source with
  | literal units' nonempty' more => exact h
  | _ => exact ⟨rfl, h⟩

theorem prepend_of_not_startsLiteral {source : Source} (h : source.startsLiteral = false) :
    prepend units nonempty source = literal units nonempty source := by
  cases source with
  | literal units' nonempty' more => cases h
  | _ => rfl

theorem parts_prepend (source : Source) :
    (prepend units nonempty source).parts =
      Tree.joinParts [.literal (Literal.meaning units)] source.parts := by
  cases source with
  | literal units' nonempty' more => simp [prepend, parts, Tree.joinParts]
  | insertion kind snippet more => cases kind <;> rfl
  | _ => rfl

end Prepend

theorem parts_ne_nil {source : Source} (h : source ≠ nil) : source.parts ≠ [] := by
  cases source with
  | nil => exact absurd rfl h
  | _ => simp [parts]

/-- Behind a literal text, the next source only brings another one if nothing stands between. -/
theorem not_startsLiteral_append {source : Source} (h : source.startsLiteral = false)
    (hne : source ≠ nil) (after : Source) : (source.append after).startsLiteral = false := by
  cases source with
  | nil => exact absurd rfl hne
  | literal units nonempty more => cases h
  | _ => rfl

theorem text_append (source after : Source) :
    (source.append after).text = source.text ++ after.text := by
  induction source with
  | nil => rfl
  | literal units nonempty more ih => rw [append, text_prepend, ih, text, List.append_assoc]
  | insertion kind snippet more ih => rw [append, text, ih, text, List.append_assoc]
  | choice condition more ih => rw [append, text, ih, text, List.append_assoc]
  | choiceThen condition yes more ihYes ihMore => simp [append, text, ihMore]
  | choiceThenElse condition yes no more ihYes ihNo ihMore => simp [append, text, ihMore]

theorem parts_append {source : Source} (h : source.Alternates) (after : Source) :
    (source.append after).parts = Tree.joinParts source.parts after.parts := by
  induction source with
  | nil => rfl
  | literal units nonempty more ih =>
      rw [append]
      by_cases hmore : more = nil
      · subst hmore
        exact parts_prepend after
      · have hliteral := not_startsLiteral_append h.1 hmore after
        rw [prepend_of_not_startsLiteral hliteral, parts, ih h.2, parts,
          Tree.joinParts_cons (parts_ne_nil hmore)]
  | insertion kind snippet more ih =>
      have hkind : ∀ text, kind.tree snippet.text ≠ .literal text := by
        intro text
        cases kind <;> simp [Insertion.tree]
      rw [append, parts, ih h, parts, Tree.joinParts_cons_placeholder hkind]
  | choice condition more ih =>
      rw [append, parts, ih h, parts, Tree.joinParts_cons_placeholder (by simp)]
  | choiceThen condition yes more ihYes ihMore =>
      rw [append, parts, ihMore h.2, parts, Tree.joinParts_cons_placeholder (by simp)]
  | choiceThenElse condition yes no more ihYes ihNo ihMore =>
      rw [append, parts, ihMore h.2.2, parts, Tree.joinParts_cons_placeholder (by simp)]

theorem depth_append (source after : Source) :
    (source.append after).depth = max source.depth after.depth := by
  induction source with
  | nil => simp [append, depth]
  | literal units nonempty more ih => rw [append, depth_prepend, ih, depth]
  | insertion kind snippet more ih => rw [append, depth, ih, depth]
  | choice condition more ih => rw [append, depth, ih, depth]
  | choiceThen condition yes more ihYes ihMore => rw [append, depth, ihMore, depth, Nat.max_assoc]
  | choiceThenElse condition yes no more ihYes ihNo ihMore =>
      rw [append, depth, ihMore, depth, Nat.max_assoc, Nat.max_assoc, Nat.max_assoc]

theorem Alternates.append {source after : Source} (h : source.Alternates)
    (hafter : after.Alternates) : (source.append after).Alternates := by
  induction source with
  | nil => exact hafter
  | literal units nonempty more ih => exact (ih h.2).prepend
  | insertion kind snippet more ih => exact ih h
  | choice condition more ih => exact ih h
  | choiceThen condition yes more ihYes ihMore => exact ⟨h.1, ihMore h.2⟩
  | choiceThenElse condition yes no more ihYes ihNo ihMore => exact ⟨h.1, h.2.1, ihMore h.2.2⟩

/-! ### The seam -/

/-- A source that leads to well-formed markup comes from well-formed markup. -/
theorem Leads.follow?_ne_none {source : Source} {start stop : Residue} (h : source.Leads start stop)
    (hstop : Position.text.follow? stop.text ≠ none) :
    Position.text.follow? start.text ≠ none := by
  induction source generalizing start with
  | nil =>
      obtain rfl : start = stop := h
      exact hstop
  | literal units nonempty more ih =>
      have hmore := ih h
      rw [Position.follow?_advance, Position.follow?_append] at hmore
      intro hnone
      rw [hnone] at hmore
      exact hmore rfl
  | insertion kind snippet more ih => exact ih h.2
  | choice condition more ih => exact ih h
  | choiceThen condition yes more ihYes ihMore => exact ihMore h.2
  | choiceThenElse condition yes no more ihYes ihNo ihMore => exact ihMore h.2.2

/-- **What leads to top level goes on with what leads from there.** -/
theorem Leads.append {source after : Source} {start stop : Residue}
    (halternates : source.Alternates) (h : source.Leads start .topLevel)
    (hafter : after.Leads .topLevel stop)
    (hstop : Position.text.follow? stop.text ≠ none) : (source.append after).Leads start stop := by
  induction source generalizing start with
  | nil =>
      obtain rfl : start = .topLevel := h
      exact hafter
  | literal units nonempty more ih =>
      rw [Source.append]
      by_cases hmore : more = nil
      · subst hmore
        have hclosed : start.advance (Literal.meaning units) = .topLevel := h
        rw [Source.append]
        cases after with
        | literal units' nonempty' more' =>
            -- the one literal text that is read has the residue of the two
            have hrest : more'.Leads (Residue.topLevel.advance (Literal.meaning units')) stop :=
              hafter
            have hfollow := hrest.follow?_ne_none hstop
            rw [Position.follow?_advance] at hfollow
            rw [prepend, Leads, Literal.meaning_append,
              Residue.advance_append (Literal.meaning_ne_nil nonempty') hclosed hfollow]
            exact hrest
        | _ =>
            rw [prepend_of_not_startsLiteral rfl, Leads, hclosed]
            exact hafter
      · rw [prepend_of_not_startsLiteral (not_startsLiteral_append halternates.1 hmore after)]
        exact ih halternates.2 h
  | insertion kind snippet more ih => exact ⟨h.1, ih halternates h.2⟩
  | choice condition more ih => exact ih halternates h
  | choiceThen condition yes more ihYes ihMore => exact ⟨h.1, ihMore halternates.2 h.2⟩
  | choiceThenElse condition yes no more ihYes ihNo ihMore =>
      exact ⟨h.1, h.2.1, ihMore halternates.2.2 h.2.2⟩

theorem Derives.append {source after : Source} {limit : Nat} {start : Residue}
    (h : source.Derives limit start .topLevel) (hafter : after.Derives limit .topLevel .topLevel) :
    (source.append after).Derives limit start .topLevel where
  alternates := h.alternates.append hafter.alternates
  depth_le := by
    rw [depth_append]
    exact Nat.max_le.2 ⟨h.depth_le, hafter.depth_le⟩
  leads := h.leads.append h.alternates hafter.leads (by simp [Residue.topLevel])

theorem tree_append {source : Source} (h : source.Alternates) (after : Source) :
    (source.append after).tree = source.tree.append after.tree := by
  rw [tree, parts_append h, Tree.append, tree, tree, Tree.parts_ofParts, Tree.parts_ofParts]

end Source

/-! ### Templates -/

namespace Template

/-- Templates that are accepted at top level are accepted one after the other. -/
theorem parseWithin_append {limit : Nat} {template after : Text} {tree treeAfter : Tree}
    (h : parseWithin limit .topLevel template = .ok tree)
    (hafter : parseWithin limit .topLevel after = .ok treeAfter) :
    parseWithin limit .topLevel (template ++ after) = .ok (tree.append treeAfter) := by
  obtain ⟨source, rfl, rfl, hderives⟩ := parseWithin_eq_ok_iff.1 h
  obtain ⟨sourceAfter, rfl, rfl, hderivesAfter⟩ := parseWithin_eq_ok_iff.1 hafter
  exact parseWithin_eq_ok_iff.2 ⟨source.append sourceAfter, Source.text_append source sourceAfter,
    Source.tree_append hderives.alternates sourceAfter, hderives.append hderivesAfter⟩

/-- Templates that are accepted where a choice stands are accepted as its branches, one level deeper. -/
theorem parseWithin_choice {limit : Nat} {residue : Residue} (condition : Snippet) {yes no : Text}
    {treeYes treeNo : Tree} (hyes : parseWithin limit residue yes = .ok treeYes)
    (hno : parseWithin limit residue no = .ok treeNo) :
    parseWithin (limit + 1) residue
        (condition.headed '?' ++ '{' :: (yes ++ '}' :: '{' :: (no ++ ['}']))) =
      .ok (.sequence [.choice condition.text treeYes treeNo]) := by
  obtain ⟨sourceYes, rfl, rfl, hderivesYes⟩ := parseWithin_eq_ok_iff.1 hyes
  obtain ⟨sourceNo, rfl, rfl, hderivesNo⟩ := parseWithin_eq_ok_iff.1 hno
  refine parseWithin_eq_ok_iff.2 ⟨.choiceThenElse condition sourceYes sourceNo .nil, rfl, rfl, ?_⟩
  have hyesDepth := Nat.succ_le_succ hderivesYes.depth_le
  have hnoDepth := Nat.succ_le_succ hderivesNo.depth_le
  exact ⟨⟨hderivesYes.alternates, hderivesNo.alternates, trivial⟩,
    Nat.max_le.2 ⟨Nat.max_le.2 ⟨hyesDepth, hnoDepth⟩, Nat.zero_le _⟩,
    hderivesYes.leads, hderivesNo.leads, rfl⟩

/-- **Accepted templates compose**: at top level one after the other, and anywhere as the branches of a
choice. -/
theorem parse_composes :
    (∀ (template after : Text) (tree treeAfter : Tree),
      parse .topLevel template = .ok tree → parse .topLevel after = .ok treeAfter →
        parse .topLevel (template ++ after) = .ok (tree.append treeAfter)) ∧
    (∀ (limit : Nat) (residue : Residue) (condition : Snippet) (yes no : Text)
        (treeYes treeNo : Tree),
      parseWithin limit residue yes = .ok treeYes → parseWithin limit residue no = .ok treeNo →
        parseWithin (limit + 1) residue
            (condition.headed '?' ++ '{' :: (yes ++ '}' :: '{' :: (no ++ ['}']))) =
          .ok (.sequence [.choice condition.text treeYes treeNo])) := by
  constructor
  · intro template after tree treeAfter h hafter
    exact parseWithin_append h hafter
  · intro limit residue condition yes no treeYes treeNo hyes hno
    exact parseWithin_choice condition hyes hno

/-- Two literal texts become one, in which an `=` stands before a tag. -/
theorem parse_composes_seam :
    parse .topLevel ("x=".toList ++ "<a t='${v}'>".toList) =
        .ok (.sequence [.literal "x=<a t='".toList, .escaped ['v'], .literal "'>".toList]) ∧
      parseWithin 1 .topLevel "?{c}{x=}{}".toList =
        .ok (.sequence [.choice ['c'] (.sequence [.literal "x=".toList]) .empty]) := by
  have h : parse .topLevel "x=".toList = .ok (.sequence [.literal "x=".toList]) := by cbv
  have hafter : parse .topLevel "<a t='${v}'>".toList =
      .ok (.sequence [.literal "<a t='".toList, .escaped ['v'], .literal "'>".toList]) := by cbv
  have hyes : parseWithin 0 .topLevel "x=".toList = .ok (.sequence [.literal "x=".toList]) := by cbv
  have hno : parseWithin 0 .topLevel [] = .ok .empty := by cbv
  have hcondition : ∀ c ∈ ['c'], Placeholder.Head.isSnippetChar c = true :=
    List.forall_mem_singleton.2 rfl
  exact ⟨parse_composes.1 _ _ _ _ h hafter,
    parse_composes.2 0 .topLevel ⟨['c'], hcondition⟩ _ _ _ _ hyes hno⟩

end Template

end SafeTemplate
