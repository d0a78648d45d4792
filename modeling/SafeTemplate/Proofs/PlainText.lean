/-
**Text without markup.**

A text without braces, backslashes and angle brackets is one literal text, and its author means no
markup by it.  The erasing passes see one thing in it: a quote.  Outside of tags a quote opens and
closes nothing, but no pass takes it away, and the third pass stops in front of it.  So the text
leaves nothing open exactly if it has no quote, and only then is it accepted.

Main results:

* `Markup.leftOpen_of_bracket_not_mem` — a text without angle brackets leaves open what stands from
  its first quote on;
* `Template.parse_plain` — a template of plain text is one literal text, if it leads back to where it
  starts;
* `Template.compile_plain` — **plain text without angle brackets is compiled to its string literal
  exactly if it has no quote**, and `Template.not_compile_plain` — a quote is enough to reject it.
-/

import SafeTemplate.Proofs.CutMarkup
import SafeTemplate.Template.Emission

set_option autoImplicit false

namespace SafeTemplate

namespace Markup

/-! ### The passes over a text without angle brackets -/

theorem eraseValues_sublist (scan : ValueScan) (s : Text) : (eraseValues scan s).Sublist s := by
  induction s generalizing scan with
  | nil => exact List.Sublist.slnil
  | cons c s ih =>
      rw [eraseValues]
      split
      · exact (ih .inside).cons c
      · exact (ih (scan.next c)).cons_cons c

/-- The first pass keeps every quote and every bracket. -/
theorem mem_eraseValues {c : Char} (hc : isDelimiter c = true) (scan : ValueScan) {s : Text}
    (h : c ∈ s) : c ∈ eraseValues scan s := by
  induction s generalizing scan with
  | nil => cases h
  | cons d s ih =>
      rw [eraseValues]
      rcases List.mem_cons.1 h with rfl | hs
      · rw [if_neg (by simp [hc])]
        exact List.mem_cons_self ..
      · split
        · exact ih .inside hs
        · exact List.mem_cons_of_mem d (ih (scan.next d) hs)

/-- Without angle brackets, the third pass drops what stands before the first quote. -/
theorem eraseClosed_of_bracket_not_mem {s : Text} (hopening : '<' ∉ s) (hclosing : '>' ∉ s) :
    eraseClosed s = s.dropWhile fun c => !isQuote c := by
  induction s with
  | nil => rw [eraseClosed, List.dropWhile_nil]
  | cons c s ih =>
      obtain ⟨hlt, hopening⟩ := not_or.1 (fun h => hopening (List.mem_cons.2 h))
      obtain ⟨hgt, hclosing⟩ := not_or.1 (fun h => hclosing (List.mem_cons.2 h))
      cases hquote : isQuote c with
      | true =>
          rw [eraseClosed_stuck (isDelimiter_of_isQuote hquote) (wholeTag?_of_ne (Ne.symm hlt) s),
            List.dropWhile_cons_of_neg (by simp [hquote])]
      | false =>
          have hplain : isDelimiter c = false := by
            simp [isDelimiter, hquote, Ne.symm hlt, Ne.symm hgt]
          rw [eraseClosed_plain hplain, List.dropWhile_cons_of_pos (by simp [hquote]),
            ih hopening hclosing]

/-- **Without angle brackets, a text leaves open what stands from its first quote on.** -/
theorem leftOpen_of_bracket_not_mem {s : Text} (hopening : '<' ∉ s) (hclosing : '>' ∉ s) :
    leftOpen s = (eraseValues .outside s).dropWhile fun c => !isQuote c := by
  have hkept := (eraseValues_sublist .outside s).subset
  have hopening' : '<' ∉ eraseValues .outside s := fun h => hopening (hkept h)
  have hclosing' : '>' ∉ eraseValues .outside s := fun h => hclosing (hkept h)
  rw [leftOpen, eraseAttributes_of_not_mem hopening',
    eraseClosed_of_bracket_not_mem hopening' hclosing']

theorem leftOpen_eq_nil_iff_of_bracket_not_mem {s : Text} (hopening : '<' ∉ s)
    (hclosing : '>' ∉ s) : leftOpen s = [] ↔ s.any isQuote = false := by
  rw [leftOpen_of_bracket_not_mem hopening hclosing, List.dropWhile_eq_nil_iff, List.any_eq_false]
  constructor
  · intro h c hc
    by_cases hquote : isQuote c = true
    · have hkept := mem_eraseValues (isDelimiter_of_isQuote hquote) .outside hc
      exact absurd (h c hkept) (by simp [hquote])
    · exact hquote
  · intro h c hc
    simpa using h c ((eraseValues_sublist .outside s).subset hc)

end Markup

namespace Template

open Markup

/-! ### Templates of plain text -/

theorem read?_plain {s : Text} (hne : s ≠ []) (hplain : ∀ c ∈ s, Literal.isPlain c = true) :
    Literal.read? s = some (s, []) := by
  have hunits : s.pmap LiteralUnit.plain hplain ≠ [] := by simpa using hne
  have hread := Literal.read?_written hunits Literal.stops_nil rfl
  rwa [Source.written_plain, List.append_nil] at hread

theorem unescape_plain {s : Text} (hplain : ∀ c ∈ s, Literal.isPlain c = true) :
    Literal.unescape s = s := by
  have hmeaning := Literal.unescape_written (s.pmap LiteralUnit.plain hplain)
  rwa [Source.written_plain, Source.meaning_plain] at hmeaning

/-- **A template of plain text is one literal text**, if the text leads back to where it starts. -/
theorem parse_plain (residue : Residue) {s : Text} (hne : s ≠ [])
    (hplain : ∀ c ∈ s, Literal.isPlain c = true) :
    parse residue s =
      if residue.advance s = residue then .ok (.sequence [.literal s])
      else .error ⟨.leftOpen (residue.advance s), [s]⟩ := by
  obtain ⟨c, t, hcons⟩ := List.exists_cons_of_ne_nil hne
  have hlength : s.length = t.length + 1 := by rw [hcons, List.length_cons]
  have hparts : readParts (readFrame nestingLimit nestingLimit) s.length (.opened residue) s =
      .ok ((Frame.opened residue).addLiteral s, []) := by
    rw [hlength, readParts, read?_plain hne hplain]
    dsimp only
    rw [unescape_plain hplain]
    -- nothing is left to read, whatever the fuel
    cases t <;> rfl
  rw [parse, parseWithin, readFrame, hparts]
  by_cases hback : residue.advance s = residue
  · simp [Frame.close, Frame.addLiteral, Frame.opened, hback]
  · simp [Frame.close, Frame.addLiteral, Frame.opened, hback, Ne.symm hback]

/-- **Plain text without angle brackets is compiled to its string literal exactly if it has no
quote.**  Otherwise it is rejected for what stands from its first quote on. -/
theorem compile_plain (host : Host) {s : Text} (hne : s ≠ [])
    (hplain : ∀ c ∈ s, Literal.isPlain c = true) (hopening : '<' ∉ s) (hclosing : '>' ∉ s) :
    compile host .topLevel s =
      if s.any isQuote then
        .error ⟨.leftOpen ⟨(eraseValues .outside s).dropWhile fun c => !isQuote c⟩, [s]⟩
      else .ok (host.literal s) := by
  have hopen := leftOpen_of_bracket_not_mem hopening hclosing
  have hback : Residue.mk (leftOpen s) = .topLevel ↔ s.any isQuote = false := by
    rw [← leftOpen_eq_nil_iff_of_bracket_not_mem hopening hclosing]
    simp [Residue.topLevel]
  rw [compile, parse_plain .topLevel hne hplain, Residue.advance_topLevel]
  cases hquote : s.any isQuote with
  | true =>
      have hstays : ¬Residue.mk (leftOpen s) = .topLevel := by simp [hback, hquote]
      rw [if_neg hstays, hopen]
      rfl
  | false =>
      rw [if_pos (hback.2 hquote)]
      simp [Tree.emit, Tree.emitParts, Host.concat]

/-- Prose with punctuation is compiled, and a quotation in it is rejected. -/
theorem compile_plain_prose :
    compile .javaScript .topLevel "1 + 1 = 2; so?".toList = .ok "\"1 + 1 = 2; so?\"".toList ∧
      compile .coffeeScript .topLevel "say =\"no\" now".toList =
        .error ⟨.leftOpen ⟨"\"\" now".toList⟩, ["say =\"no\" now".toList]⟩ := by
  constructor
  · exact compile_plain .javaScript (by decide) (List.all_eq_true.1 rfl) (by decide) (by decide)
  · exact compile_plain .coffeeScript (by decide) (List.all_eq_true.1 rfl) (by decide) (by decide)

/-- **A quote is enough to reject a text**: an apostrophe is taken for something that stays open. -/
theorem not_compile_plain :
    ¬∀ (host : Host) (s : Text), s ≠ [] → (∀ c ∈ s, Literal.isPlain c = true) → '<' ∉ s → '>' ∉ s →
      compile host .topLevel s = .ok (host.literal s) := by
  intro h
  have hrejected : compile .coffeeScript .topLevel "it's".toList =
      .error ⟨.leftOpen ⟨"'s".toList⟩, ["it's".toList]⟩ := by
    cbv
  have haccepted := h .coffeeScript "it's".toList (by decide) (List.all_eq_true.1 rfl) (by decide)
    (by decide)
  rw [hrejected] at haccepted
  cases haccepted

end Template

end SafeTemplate
