/-
**Residues of markup with single spaces.**

Markup with single spaces is where residues are exact.  At each place of the automaton one residue
stands for all the texts that come there: it holds the tag that is open and the attribute that is not
finished, and nothing of the attributes before it.  How a text is cut into literal texts makes no
difference, though the erasing passes look at each piece at once and see nothing of what follows.

Main definition: `Markup.Place.residue` — the residue at a place.

Main results:

* `Markup.Place.leftOpen_step` — one character in front of a text, for the erasing passes and for the
  automaton;
* `Markup.Place.advance_residue`, `Markup.Place.foldl_advance` — literal texts take the residues along
  the automaton;
* `Residue.foldl_advance_spaced` — **residues follow the automaton**, however the markup is cut.
-/

import SafeTemplate.Proofs.Seam
import SafeTemplate.Proofs.SpacedMarkup

set_option autoImplicit false

namespace SafeTemplate

namespace Markup

/-! ### What a tag leaves open -/

/-- A tag stays as it is if its only attribute is not finished. -/
theorem leftOpen_startTag (name : TagName) {rest : Text} (hsettled : Settled rest)
    (hdrop : dropAttributes rest = rest) (hhead : ∀ c ∈ rest.head?, isNameChar c = false)
    (hlt : '<' ∉ rest) (hgt : '>' ∉ rest) :
    leftOpen ('<' :: (name.text ++ rest)) = '<' :: (name.text ++ rest) := by
  have hequals : '=' ∉ name.text := name.not_mem rfl
  have hname : '>' ∉ name.text := name.not_mem rfl
  have hclosing : '>' ∉ name.text ++ rest := by
    rw [List.mem_append, not_or]
    exact ⟨hname, hgt⟩
  rw [leftOpen, eraseValues_bracket _ (Or.inl rfl), eraseValues_outside_append hequals, hsettled,
    eraseAttributes_tag name.nonempty name.plain hhead, hdrop, eraseAttributes_of_not_mem hlt,
    eraseClosed_of_not_mem hclosing]

theorem equals_not_mem_attribute (attr : AttributeName) : '=' ∉ ' ' :: attr.text := by
  rw [List.mem_cons, not_or]
  exact ⟨by decide, attr.not_mem rfl⟩

/-- What may follow the name of an attribute that is not finished: nothing, an `=`, or an `=` and a
quote. -/
def Pending (s : Text) : Prop :=
  s = [] ∨ s = ['='] ∨ ∃ quote : Quote, s = ['=', quote.val]

theorem Pending.stop {s : Text} (h : Pending s) : ∀ c ∈ s.head?, isAttributeChar c = false := by
  rcases h with rfl | rfl | ⟨quote, rfl⟩
  · simp
  · exact stop_cons rfl _
  · exact stop_cons rfl _

theorem Pending.settled {s : Text} (h : Pending s) : Settled s := by
  rcases h with rfl | rfl | ⟨quote, rfl⟩
  · rfl
  · rfl
  · simp [Settled, eraseValues, ValueScan.next]

theorem Pending.bracket_not_mem {s : Text} (h : Pending s) {c : Char} (hc : c = '<' ∨ c = '>') :
    c ∉ s := by
  have hequals : c ≠ '=' := by rcases hc with rfl | rfl <;> decide
  rcases h with rfl | rfl | ⟨quote, rfl⟩
  · simp
  · simpa using hequals
  · have hquote : c ≠ quote.val := by
      rcases hc with rfl | rfl <;> exact (ne_of_kind quote.property rfl).symm
    simp [hequals, hquote]

theorem finishedAttribute?_pending (attr : AttributeName) {rest : Text} (h : Pending rest) :
    finishedAttribute? (' ' :: (attr.text ++ rest)) = none := by
  have hempty : attr.text.isEmpty = false := by
    cases htext : attr.text with
    | nil => exact absurd htext attr.nonempty
    | cons c s => rfl
  simp only [finishedAttribute?, takeWhile_append_stop attr.plain h.stop,
    dropWhile_append_stop attr.plain h.stop, hempty]
  rcases h with rfl | rfl | ⟨quote, rfl⟩
  · rfl
  · rfl
  · simp

/-- A tag whose last attribute is not finished stays as it is. -/
theorem leftOpen_pending (name : TagName) (attr : AttributeName) {rest : Text} (h : Pending rest) :
    leftOpen ('<' :: (name.text ++ ' ' :: (attr.text ++ rest))) =
      '<' :: (name.text ++ ' ' :: (attr.text ++ rest)) := by
  have hequals := equals_not_mem_attribute attr
  have hsettled : Settled (' ' :: attr.text ++ rest) := by
    rw [Settled, eraseValues_outside_append hequals, h.settled]
  have hbracket : ∀ c, c = '<' ∨ c = '>' → c ∉ ' ' :: (attr.text ++ rest) := by
    intro c hc hmem
    rcases List.mem_cons.1 hmem with rfl | hmem
    · exact absurd hc (by decide)
    · rcases List.mem_append.1 hmem with hattr | hrest
      · have hplain := attr.plain c hattr
        rcases hc with rfl | rfl <;> exact absurd hplain (by decide)
      · exact h.bracket_not_mem hc hrest
  have hdrop := dropAttributes_of_none (finishedAttribute?_pending attr h)
  exact leftOpen_startTag name hsettled hdrop (stop_cons rfl _) (hbracket '<' (Or.inl rfl))
    (hbracket '>' (Or.inr rfl))

theorem leftOpen_tagName (name : TagName) : leftOpen ('<' :: name.text) = '<' :: name.text := by
  have hdrop : dropAttributes [] = [] := by rw [dropAttributes_of_none rfl]
  have h := @leftOpen_startTag name [] rfl hdrop (by simp) (by simp) (by simp)
  rwa [List.append_nil] at h

theorem not_mem_endTag (name : TagName) {c : Char} (hc : isNameChar c = false) (hslash : c ≠ '/') :
    c ∉ '/' :: name.text := by
  rw [List.mem_cons, not_or]
  exact ⟨hslash, name.not_mem hc⟩

theorem leftOpen_endTag (name : TagName) :
    leftOpen ('<' :: '/' :: name.text) = '<' :: '/' :: name.text := by
  have hequals : '=' ∉ '/' :: name.text := not_mem_endTag name rfl (by decide)
  have hsettled : eraseValues .outside ('/' :: name.text) = '/' :: name.text := by
    have h := eraseValues_outside_append hequals []
    rwa [eraseValues, List.append_nil] at h
  rw [leftOpen, eraseValues_bracket _ (Or.inl rfl), hsettled,
    eraseAttributes_cons fun _ => stop_cons rfl _,
    eraseAttributes_of_not_mem (not_mem_endTag name rfl (by decide)),
    eraseClosed_of_not_mem (not_mem_endTag name rfl (by decide))]

/-! ### What a tag does not leave open -/

theorem head?_eraseValues (s : Text) : (eraseValues .outside s).head? = s.head? := by
  cases s with
  | nil => rfl
  | cons c s => simp [eraseValues]

theorem Marks.eraseValues {mark rest : Text} (h : Marks mark rest) :
    Marks mark (Markup.eraseValues .outside rest) := by
  rcases h with hvalue | ⟨rfl, c, s, rfl, hc⟩
  · exact Or.inl hvalue
  · exact Or.inr ⟨rfl, c, Markup.eraseValues (ValueScan.outside.next c) s,
      by simp [Markup.eraseValues], hc⟩

theorem eraseValues_marks {mark rest : Text} (h : Marks mark rest) :
    eraseValues .outside (mark ++ rest) = mark ++ eraseValues .outside rest := by
  rcases h with ⟨quote, hquote, rfl⟩ | ⟨rfl, -⟩
  · have hne : quote ≠ '=' := ne_of_kind hquote rfl
    simp [eraseValues, ValueScan.next, hquote, isDelimiter_of_isQuote hquote]
  · rfl

/-- A finished attribute behind the name of a tag is erased. -/
theorem leftOpen_attribute (name : TagName) (attr : AttributeName) {mark rest : Text}
    (hmarks : Marks mark rest) (hrest : ∀ c ∈ rest.head?, isNameChar c = false) :
    leftOpen ('<' :: (name.text ++ ' ' :: (attr.text ++ (mark ++ rest)))) =
      leftOpen ('<' :: (name.text ++ rest)) := by
  have hname : '=' ∉ name.text := name.not_mem rfl
  have hequals := equals_not_mem_attribute attr
  have hattribute : eraseValues .outside (' ' :: (attr.text ++ (mark ++ rest))) =
      ' ' :: (attr.text ++ (mark ++ eraseValues .outside rest)) := by
    rw [← eraseValues_marks hmarks]
    exact eraseValues_outside_append hequals (mark ++ rest)
  have hhead : ∀ c ∈ (eraseValues .outside rest).head?, isNameChar c = false := by
    rw [head?_eraseValues]
    exact hrest
  rw [leftOpen, leftOpen, eraseValues_bracket _ (Or.inl rfl), eraseValues_bracket _ (Or.inl rfl),
    eraseValues_outside_append hname, eraseValues_outside_append hname, hattribute,
    eraseAttributes_tag name.nonempty name.plain (stop_cons rfl _),
    eraseAttributes_tag name.nonempty name.plain hhead,
    dropAttributes_attribute attr.nonempty attr.plain (Marks.eraseValues hmarks)]

theorem leftOpen_startTag_closed (name : TagName) : leftOpen ('<' :: (name.text ++ ['>'])) = [] := by
  have hequals : '=' ∉ name.text := name.not_mem rfl
  have hdrop : dropAttributes ['>'] = ['>'] := dropAttributes_of_none rfl
  have hwhole : wholeTag? ('<' :: (name.text ++ ['>'])) = some [] :=
    wholeTag?_eq_some_iff.2 ⟨[], name.text, Or.inl rfl, name.nonempty, name.plain, rfl⟩
  have hclosing : eraseValues .outside ['>'] = ['>'] := rfl
  rw [leftOpen, eraseValues_bracket _ (Or.inl rfl), eraseValues_outside_append hequals, hclosing,
    eraseAttributes_tag name.nonempty name.plain (stop_cons rfl []), hdrop,
    eraseAttributes_of_not_mem (by decide), eraseClosed_tag hwhole, eraseClosed]

theorem leftOpen_endTag_closed (name : TagName) :
    leftOpen ('<' :: '/' :: (name.text ++ ['>'])) = [] := by
  have hequals : '=' ∉ '/' :: name.text := not_mem_endTag name rfl (by decide)
  have hlt : '<' ∉ '/' :: (name.text ++ ['>']) := by
    have hname : '<' ∉ name.text := name.not_mem rfl
    simp [hname]
  have hwhole : wholeTag? ('<' :: '/' :: (name.text ++ ['>'])) = some [] :=
    wholeTag?_eq_some_iff.2 ⟨['/'], name.text, Or.inr rfl, name.nonempty, name.plain, rfl⟩
  have hvalues : eraseValues .outside ('/' :: (name.text ++ ['>'])) = '/' :: (name.text ++ ['>']) :=
    eraseValues_outside_append hequals ['>']
  rw [leftOpen, eraseValues_bracket _ (Or.inl rfl), hvalues,
    eraseAttributes_cons fun _ => stop_cons rfl _, eraseAttributes_of_not_mem hlt,
    eraseClosed_tag hwhole, eraseClosed]

/-! ### Residues at the places -/

namespace Place

/-- The residue at a place. -/
def residue : Place → Residue
  | outside => .topLevel
  | opened => ⟨['<']⟩
  | openedEnd => ⟨['<', '/']⟩
  | endName name => ⟨'<' :: '/' :: name.text⟩
  | startName name => ⟨'<' :: name.text⟩
  | space name => ⟨'<' :: (name.text ++ [' '])⟩
  | attributeName name attr => ⟨'<' :: (name.text ++ ' ' :: attr.text)⟩
  | equals name attr => ⟨'<' :: (name.text ++ ' ' :: (attr.text ++ ['=']))⟩
  | value name attr quote => ⟨'<' :: (name.text ++ ' ' :: (attr.text ++ ['=', quote.val]))⟩
  | valued name => ⟨'<' :: name.text⟩

/-- The residue at a place has nothing more to erase. -/
theorem leftOpen_residue (place : Place) : leftOpen place.residue.text = place.residue.text := by
  cases place with
  | outside => cbv
  | opened => cbv
  | openedEnd => cbv
  | endName name => exact leftOpen_endTag name
  | startName name => exact leftOpen_tagName name
  | space name =>
      have hdrop : dropAttributes [' '] = [' '] := by rw [dropAttributes_of_none rfl]
      exact leftOpen_startTag name rfl hdrop (stop_cons rfl []) (by decide) (by decide)
  | attributeName name attr =>
      have h := leftOpen_pending name attr (Or.inl rfl)
      rwa [List.append_nil] at h
  | equals name attr => exact leftOpen_pending name attr (Or.inr (Or.inl rfl))
  | value name attr quote => exact leftOpen_pending name attr (Or.inr (Or.inr ⟨quote, rfl⟩))
  | valued name => exact leftOpen_tagName name

/-! ### One character more -/

/-- A step that ends outside of tags leaves nothing open. -/
theorem leftOpen_closed {place : Place} {c : Char} (h : place.Step c outside) :
    leftOpen (place.residue.text ++ [c]) = [] := by
  have hstart : ∀ name : TagName, leftOpen ((startName name).residue.text ++ ['>']) = [] :=
    leftOpen_startTag_closed
  cases h with
  | @character c h =>
      have hlt : '<' ∉ [c] := by
        rw [List.mem_singleton]
        exact (ne_of_not_isDelimiter h rfl).symm
      have hvalues : eraseValues .outside [c] = [c] := by simp [eraseValues]
      have htext : residue outside = ⟨[]⟩ := rfl
      rw [htext, List.nil_append, leftOpen, hvalues, eraseAttributes_of_not_mem hlt,
        eraseClosed_plain h, eraseClosed]
  | @endClosed name => exact leftOpen_endTag_closed name
  | @startClosed name => exact hstart name
  | @attributeClosed name attr =>
      have hmarks : Marks [] ['>'] := Or.inr ⟨rfl, '>', [], rfl, Or.inr rfl⟩
      have h := leftOpen_attribute name attr hmarks (stop_cons rfl [])
      rw [leftOpen_startTag_closed] at h
      simpa [residue] using h
  | @valuedClosed name => exact hstart name

/-- In a value, no text is kept. -/
theorem eraseValues_value (name : TagName) (attr : AttributeName) (quote : Quote) (s : Text) :
    eraseValues .outside ((value name attr quote).residue.text ++ s) =
      (value name attr quote).residue.text ++ eraseValues .inside s := by
  have hequals : '=' ∉ '<' :: (name.text ++ ' ' :: attr.text) := by
    have hname : '=' ∉ name.text := name.not_mem rfl
    have hattr : '=' ∉ attr.text := attr.not_mem rfl
    simp [hname, hattr]
  have hopen : eraseValues .outside ('=' :: quote.val :: s) =
      '=' :: quote.val :: eraseValues .inside s := by
    simp [eraseValues, ValueScan.next, quote.property]
  have h := eraseValues_outside_append hequals ('=' :: quote.val :: s)
  rw [hopen] at h
  simpa [residue] using h

/-- What may come behind a value. -/
theorem stop_of_follow?_valued {name : TagName} {there : Place} {s : Text}
    (h : (valued name).follow? s = some there) : ∀ c ∈ s.head?, isNameChar c = false := by
  cases s with
  | nil => simp
  | cons c s =>
      obtain ⟨place', hstep, -⟩ := exists_step_of_follow? h
      cases hstep with
      | valuedSpace => exact stop_cons rfl s
      | valuedClosed => exact stop_cons rfl s

/-- **One character in front of a text**: the erasing passes go over it as the automaton does, if the
text behind it can be followed. -/
theorem leftOpen_step {place place' there : Place} {c : Char} (h : place.Step c place') {s : Text}
    (hs : place'.follow? s = some there) :
    leftOpen (place.residue.text ++ c :: s) = leftOpen (place'.residue.text ++ s) := by
  by_cases houtside : place' = outside
  · subst houtside
    have hposition : Position.text.follow? s ≠ none := by
      rw [show Position.text = outside.position from rfl, follow?_position hs]
      simp
    have hsplit : place.residue.text ++ c :: s = (place.residue.text ++ [c]) ++ s := by simp
    rw [hsplit, leftOpen_append (leftOpen_closed h) hposition]
    rfl
  · -- inside of a tag, most characters become part of the residue
    cases h with
    | character h => exact absurd rfl houtside
    | endClosed => exact absurd rfl houtside
    | startClosed => exact absurd rfl houtside
    | attributeClosed => exact absurd rfl houtside
    | valuedClosed => exact absurd rfl houtside
    | @attributeSpace name attr =>
        have hmarks : Marks [] (' ' :: s) := Or.inr ⟨rfl, ' ', s, rfl, Or.inl rfl⟩
        have h := leftOpen_attribute name attr hmarks (stop_cons rfl s)
        simpa [residue] using h
    | @valueMore name attr quote c h =>
        have hdrop : eraseValues .inside (c :: s) = eraseValues .inside s := by
          rw [eraseValues, if_pos ⟨rfl, by simp [h]⟩]
        rw [leftOpen, leftOpen, eraseValues_value, eraseValues_value, hdrop]
    | @valueClosed name attr quote =>
        have hmarks : Marks ['=', quote.val, quote.val] s :=
          Or.inl ⟨quote.val, quote.property, rfl⟩
        have h := leftOpen_attribute name attr hmarks (stop_of_follow?_valued hs)
        simpa [residue] using h
    | tag => rfl
    | endTag => rfl
    | _ => simp [residue, Name.single, Name.push, Name.append]

/-! ### Literal texts -/

theorem leftOpen_follow {place there : Place} {s : Text} (h : place.follow? s = some there) :
    leftOpen (place.residue.text ++ s) = there.residue.text := by
  induction s generalizing place with
  | nil =>
      obtain rfl := Option.some.inj h
      rw [List.append_nil, leftOpen_residue]
  | cons c s ih =>
      obtain ⟨place', hstep, hrest⟩ := exists_step_of_follow? h
      rw [leftOpen_step hstep hrest, ih hrest]

/-- **A literal text takes the residue along the automaton.** -/
theorem advance_residue {place there : Place} {literal : Text}
    (h : place.follow? literal = some there) : place.residue.advance literal = there.residue := by
  cases literal with
  | nil =>
      obtain rfl := Option.some.inj h
      rfl
  | cons c s =>
      rw [Residue.advance_of_ne_nil (List.cons_ne_nil c s), leftOpen_follow h]

/-- **However a text is cut into literal texts, they take the residue along the automaton.** -/
theorem foldl_advance {place there : Place} {pieces : List Text}
    (h : place.follow? pieces.flatten = some there) :
    pieces.foldl Residue.advance place.residue = there.residue := by
  induction pieces generalizing place with
  | nil =>
      obtain rfl := Option.some.inj h
      rfl
  | cons piece pieces ih =>
      rw [List.flatten_cons] at h
      obtain ⟨middle, hpiece, hrest⟩ := exists_follow?_of_append h
      rw [List.foldl_cons, advance_residue hpiece, ih hrest]

/-! ### What is seen from a residue -/

/-- No quote stands in a residue outside of values. -/
theorem quote_not_mem_residue {place : Place}
    (h : ∀ name attr quote, place ≠ value name attr quote) {c : Char} (hc : isQuote c = true) :
    c ∉ place.residue.text := by
  have hattribute : ∀ {s : Text}, (∀ d ∈ s, isAttributeChar d = true) → c ∉ s := by
    intro s hs hmem
    have hdelimiter := not_isDelimiter_of_isAttributeChar (hs c hmem)
    rw [isDelimiter_of_isQuote hc] at hdelimiter
    cases hdelimiter
  have hname : ∀ name : TagName, c ∉ name.text := fun name => hattribute name.isAttributeChar
  have hattr : ∀ attr : AttributeName, c ∉ attr.text := fun attr => hattribute attr.plain
  have hne : ∀ d, isQuote d = false → c ≠ d := fun d hd => ne_of_kind hc hd
  have hlt := hne '<' rfl
  have hslash := hne '/' rfl
  have hspace := hne ' ' rfl
  have hequals := hne '=' rfl
  cases place with
  | value name attr quote => exact absurd rfl (h name attr quote)
  | _ => simp [residue, Residue.topLevel, hname, hattr, hlt, hslash, hspace, hequals]

theorem inQuotedAttribute_residue {place : Place} :
    place.residue.inQuotedAttribute = true ↔ ∃ name attr quote, place = value name attr quote := by
  constructor
  · intro h
    obtain ⟨before, quote, hquote, htext⟩ := Residue.inQuotedAttribute_iff.1 h
    refine Classical.byContradiction fun hvalue => ?_
    have hnone : ∀ name attr quote, place ≠ value name attr quote :=
      fun name attr quote heq => hvalue ⟨name, attr, quote, heq⟩
    apply quote_not_mem_residue hnone hquote
    simp [htext]
  · rintro ⟨name, attr, quote, rfl⟩
    exact Residue.inQuotedAttribute_iff.2
      ⟨'<' :: (name.text ++ ' ' :: attr.text), quote.val, quote.property, by simp [residue]⟩

theorem isTopLevel_residue {place : Place} : place.residue.isTopLevel = true ↔ place = outside := by
  rw [Residue.isTopLevel_iff]
  cases place <;> simp [residue, Residue.topLevel]

end Place

end Markup

open Markup (Place Spaced)

/-- **Residues follow the automaton, however the markup is cut.**  Any start of markup with single
spaces leads to one place, over finished items and what is unfinished there.  Literal texts that make
it up lead to the residue at that place; it is in a value exactly if the place is, and at top level
exactly if the place is outside of tags. -/
theorem Residue.foldl_advance_spaced {markup p : Text} {pieces : List Text}
    (hmarkup : Spaced markup) (hstart : p <+: markup) (hpieces : pieces.flatten = p) :
    ∃ place, Place.outside.follow? p = some place ∧
      (∃ before unfinished,
        Spaced before ∧ place.Unfinished unfinished ∧ p = before ++ unfinished) ∧
      pieces.foldl advance topLevel = place.residue ∧
      ((pieces.foldl advance topLevel).inQuotedAttribute = true ↔
        ∃ name attr quote, place = .value name attr quote) ∧
      ((pieces.foldl advance topLevel).isTopLevel = true ↔ place = .outside) := by
  obtain ⟨place, hplace⟩ := Place.exists_follow?_of_prefix hmarkup hstart
  have hresidue : pieces.foldl advance topLevel = place.residue := by
    rw [← hpieces] at hplace
    exact Place.foldl_advance hplace
  refine ⟨place, hplace, Place.exists_unfinished hplace, hresidue, ?_, ?_⟩
  · rw [hresidue]
    exact Place.inQuotedAttribute_residue
  · rw [hresidue]
    exact Place.isTopLevel_residue

/-- The text is cut behind the `=` of an attribute, and behind an `=` in its value. -/
theorem Residue.foldl_advance_spaced_cut :
    ∃ place, Place.outside.follow? ['<', 'a', ' ', 'b', '=', '\'', 'x', '='] = some place ∧
      [['<', 'a', ' ', 'b', '='], ['\'', 'x', '=']].foldl advance topLevel = place.residue ∧
      ∃ name attr quote, place = .value name attr quote := by
  have hvalue : ∀ c ∈ ['x', '='], Markup.isDelimiter c = false := by
    simp [Markup.isDelimiter, Markup.isQuote]
  have hmarkup : Spaced ['<', 'a', ' ', 'b', '=', '\'', 'x', '=', '\'', '>'] :=
    ⟨[.startTag (.single 'a' rfl) [.quoted (.single 'b' rfl) ⟨'\'', rfl⟩ ⟨['x', '='], hvalue⟩]], rfl⟩
  have hpieces : [['<', 'a', ' ', 'b', '='], ['\'', 'x', '=']].flatten =
      ['<', 'a', ' ', 'b', '=', '\'', 'x', '='] := rfl
  obtain ⟨place, hplace, -, hresidue, hquoted, -⟩ :=
    foldl_advance_spaced hmarkup ⟨['\'', '>'], rfl⟩ hpieces
  refine ⟨place, hplace, hresidue, hquoted.1 ?_⟩
  cbv

end SafeTemplate
