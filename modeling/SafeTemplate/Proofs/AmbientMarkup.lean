/-
**Markup around a template.**

A template that stands inside other markup is read from a residue, and the author of that markup has
the text before the template, not its residue.  If the text is taken for the residue as it stands,
then what is closed in it stays there until the first literal text runs the erasing passes over all
of it.  From then on the residue is one that some text leaves open, and it never goes back to where
the template has started.

What a separated text leaves open is its own residue, and nothing is lost.  What no text leaves open
accepts no literal text at all, only insertions and choices between them, and whether an insertion
may stand there is read off the end of the text as it is written, be there a value open or not.
Between the two is only what a text leaves open that is not separated, such as `<ac d>`.

Main definition: `Source.Bare`.

Main results:

* `Residue.advance_text_advance` — **what a separated text leaves open is its own residue**;
* `Source.bare_of_leads` — a source that leads back to no residue holds no literal text;
* `Template.parse_ambient` — **templates inside of markup**: the markup accepts what its residue
  accepts if it is its own residue, and bare templates only if it is no residue;
* `Template.not_parse_ambient` — closed markup in front of a template is enough to reject it.
-/

import SafeTemplate.Proofs.CutMarkup

set_option autoImplicit false

namespace SafeTemplate

open Markup (Position leftOpen leftOpen_append_of_separated settled_leftOpen)

/-! ### Residues of residues -/

namespace Residue

/-- **What a separated text leaves open is its own residue.** -/
theorem advance_text_advance {s : Text} (hfollow : Position.text.follow? s ≠ none)
    (hseparated : Position.text.separated s = true) :
    topLevel.advance (topLevel.advance s).text = topLevel.advance s := by
  have hagain := @leftOpen_append_of_separated s [] (by rwa [List.append_nil])
    (by rwa [List.append_nil])
  rw [List.append_nil, List.append_nil] at hagain
  rw [advance_topLevel, advance_topLevel, hagain]

/-- Behind a literal text, the residue is what some text leaves open. -/
theorem exists_advance_topLevel (residue : Residue) {literal : Text} (hne : literal ≠ []) :
    ∃ s, topLevel.advance s = residue.advance literal :=
  ⟨residue.text ++ literal, by rw [advance_topLevel, advance_of_ne_nil hne]⟩

/-- A text with the text of a value in it is no residue. -/
theorem advance_topLevel_ne {before : Text} (h : ¬Markup.Settled before) (s : Text) :
    topLevel.advance s ≠ ⟨before⟩ := by
  intro hadvance
  rw [advance_topLevel] at hadvance
  have hopen : leftOpen s = before := congrArg Residue.text hadvance
  exact h (hopen ▸ settled_leftOpen s)

end Residue

/-! ### Sources without literal text -/

namespace Source

/-- Whether a source holds no literal text, here and in every branch, and every insertion may stand
where `here` is open. -/
def Bare (here : Residue) : Source → Prop
  | nil => True
  | literal _ _ _ => False
  | insertion kind _ more => kind.kind.allowed here = true ∧ more.Bare here
  | choice _ more => more.Bare here
  | choiceThen _ yes more => yes.Bare here ∧ more.Bare here
  | choiceThenElse _ yes no more => yes.Bare here ∧ no.Bare here ∧ more.Bare here

/-- Without literal text nothing is advanced over. -/
theorem Bare.leads {here : Residue} {source : Source} (h : source.Bare here) :
    source.Leads here here := by
  induction source with
  | nil => rfl
  | literal units nonempty more ih => cases h
  | insertion kind snippet more ih => exact ⟨h.1, ih h.2⟩
  | choice condition more ih => exact ih h
  | choiceThen condition yes more ihYes ihMore => exact ⟨ihYes h.1, ihMore h.2⟩
  | choiceThenElse condition yes no more ihYes ihNo ihMore =>
      exact ⟨ihYes h.1, ihNo h.2.1, ihMore h.2.2⟩

/-- **A source that leads back to no residue holds no literal text**, so it has not moved. -/
theorem bare_of_leads {source : Source} {start stop : Residue}
    (hstop : ∀ s, Residue.topLevel.advance s ≠ stop) (h : source.Leads start stop) :
    start = stop ∧ source.Bare stop := by
  induction source generalizing start stop with
  | nil => exact ⟨h, trivial⟩
  | literal units nonempty more ih =>
      -- the rest would not move either, so the residue behind the literal text is the last one
      obtain ⟨hend, -⟩ := ih hstop h
      obtain ⟨s, hs⟩ := start.exists_advance_topLevel (Literal.meaning_ne_nil nonempty)
      exact absurd (hs.trans hend) (hstop s)
  | insertion kind snippet more ih =>
      obtain ⟨rfl, hmore⟩ := ih hstop h.2
      exact ⟨rfl, h.1, hmore⟩
  | choice condition more ih => exact ih hstop h
  | choiceThen condition yes more ihYes ihMore =>
      obtain ⟨rfl, hmore⟩ := ihMore hstop h.2
      exact ⟨rfl, (ihYes hstop h.1).2, hmore⟩
  | choiceThenElse condition yes no more ihYes ihNo ihMore =>
      obtain ⟨rfl, hmore⟩ := ihMore hstop h.2.2
      exact ⟨rfl, (ihYes hstop h.1).2, (ihNo hstop h.2.1).2, hmore⟩

end Source

/-! ### Templates inside of markup -/

namespace Template

/-- What no text leaves open accepts templates without literal text only. -/
theorem parse_iff_bare {before : Text} (hbefore : ∀ s, Residue.topLevel.advance s ≠ ⟨before⟩)
    (template : Text) :
    (∃ tree, parse ⟨before⟩ template = .ok tree) ↔
      ∃ source : Source, source.text = template ∧ source.Alternates ∧
        source.depth ≤ nestingLimit ∧ source.Bare ⟨before⟩ := by
  constructor
  · rintro ⟨tree, htree⟩
    obtain ⟨source, htext, -, hderives⟩ := parseWithin_eq_ok_iff.1 htree
    have hbare := (Source.bare_of_leads hbefore hderives.leads).2
    exact ⟨source, htext, hderives.alternates, hderives.depth_le, hbare⟩
  · rintro ⟨source, htext, halternates, hdepth, hbare⟩
    exact ⟨source.tree, parseWithin_eq_ok_iff.2
      ⟨source, htext, rfl, halternates, hdepth, hbare.leads⟩⟩

/-- **Templates inside of markup.**  Markup that a separated text leaves open accepts the templates
that its residue accepts.  Markup that no text leaves open accepts exactly the templates without
literal text whose insertions may stand behind it as it is written. -/
theorem parse_ambient (before template : Text) :
    (∀ s, Position.text.follow? s ≠ none → Position.text.separated s = true →
      Residue.topLevel.advance s = ⟨before⟩ →
        ((∃ tree, parse ⟨before⟩ template = .ok tree) ↔
          ∃ tree, parse (Residue.topLevel.advance before) template = .ok tree)) ∧
    ((∀ s, Residue.topLevel.advance s ≠ ⟨before⟩) →
      ((∃ tree, parse ⟨before⟩ template = .ok tree) ↔
        ∃ source : Source, source.text = template ∧ source.Alternates ∧
          source.depth ≤ nestingLimit ∧ source.Bare ⟨before⟩)) := by
  refine ⟨?_, fun hbefore => parse_iff_bare hbefore template⟩
  intro s hfollow hseparated hbefore
  have hown := Residue.advance_text_advance hfollow hseparated
  rw [hbefore] at hown
  rw [hown]

/-- A value that has just been opened is its own residue.  A value that ends in `=` is not erased when
the template starts, and text is inserted behind it into the tag, which its residue forbids. -/
theorem parse_ambient_value :
    ((∃ tree, parse ⟨"<a href='".toList⟩ "${x}".toList = .ok tree) ↔
      ∃ tree, parse (Residue.topLevel.advance "<a href='".toList) "${x}".toList = .ok tree) ∧
    (∃ tree, parse ⟨"<a b=\"=\"".toList⟩ "${x}".toList = .ok tree) ∧
    ¬∃ tree, parse (Residue.topLevel.advance "<a b=\"=\"".toList) "${x}".toList = .ok tree := by
  refine ⟨?_, ?_, ?_⟩
  · have hfollow : Position.text.follow? "<a href='/x".toList ≠ none := by decide
    have hadvance : Residue.topLevel.advance "<a href='/x".toList = ⟨"<a href='".toList⟩ := by cbv
    exact (parse_ambient _ _).1 "<a href='/x".toList hfollow (by decide) hadvance
  · have hunsettled : ¬Markup.Settled "<a b=\"=\"".toList := by
      unfold Markup.Settled
      decide
    have hsnippet : ∀ c ∈ ['x'], Placeholder.Head.isSnippetChar c = true :=
      List.forall_mem_singleton.2 rfl
    exact ((parse_ambient _ _).2 (Residue.advance_topLevel_ne hunsettled)).2
      ⟨.insertion .escaped ⟨['x'], hsnippet⟩ .nil, rfl, trivial, Nat.zero_le _, rfl, trivial⟩
  · rintro ⟨tree, htree⟩
    have hrejected : parse (Residue.topLevel.advance "<a b=\"=\"".toList) "${x}".toList =
        .error ⟨.misplaced .escaped ⟨"<a".toList⟩, ["${x}".toList]⟩ := by
      cbv
    rw [hrejected] at htree
    cases htree

/-- **Markup does not accept what its residue accepts**: inside a value of which some text has been
written, no more text can be written. -/
theorem not_parse_ambient :
    ¬∀ before template : Text, (∃ tree, parse ⟨before⟩ template = .ok tree) ↔
      ∃ tree, parse (Residue.topLevel.advance before) template = .ok tree := by
  intro h
  have hresidue : parse (Residue.topLevel.advance "<a href='/x".toList) "y".toList =
      .ok (.sequence [.literal "y".toList]) := by
    cbv
  have hrejected : parse ⟨"<a href='/x".toList⟩ "y".toList =
      .error ⟨.leftOpen ⟨"<a href='".toList⟩, ["y".toList]⟩ := by
    cbv
  obtain ⟨tree, htree⟩ := (h "<a href='/x".toList "y".toList).2 ⟨_, hresidue⟩
  rw [hrejected] at htree
  cases htree

end Template

end SafeTemplate
