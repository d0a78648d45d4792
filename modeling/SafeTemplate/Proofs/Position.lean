/-
**Where a character stands in markup.**

Character by character, markup is text, the inside of a tag, or the value of an attribute in quotes.
This is the tokenizer that a reader of the output runs, and no part of the library runs it: residues
are kept instead.  Here the two are brought together.  A position *expects* the characters that
well-formed markup has there, and as long as a text brings only those, erasing its closed structure
does not change where it ends.  A text that brings another character is never mended by what follows,
because no pass takes such a character away.

Main definitions:

* `Markup.Position`, `Markup.Position.next`, `Markup.Position.run` — the tokenizer;
* `Markup.Position.expects`, `Markup.Position.follow?` — the same, up to the first character that does
  not belong;
* `Markup.Position.Agrees` — the tokenizer and the first pass stand at the same kind of place.

Main results:

* `Markup.Position.follow?_eraseValues`, `Markup.Position.follow?_eraseAttributes`,
  `Markup.Position.follow?_eraseClosed` — the passes keep the place where a text ends;
* `Markup.Position.follow?_advance` — **advancing keeps it**;
* `Markup.Position.exists_value_of_inQuotedAttribute` — a settled residue that ends in a
  value is inside one.
-/

import SafeTemplate.Proofs.Erasure

set_option autoImplicit false

namespace SafeTemplate

namespace Markup

/-- One of the two quotes. -/
abbrev Quote := { c : Char // isQuote c = true }

/-- Where a character stands: in text, in a tag, after an `=` in a tag, or in a value in quotes. -/
inductive Position
  | text
  | tag
  | afterEquals
  | value (quote : Quote)
  deriving DecidableEq

namespace Position

/-- The position after one more character. -/
def next (position : Position) (c : Char) : Position :=
  match position with
  | text => if c = '<' then tag else text
  | tag => if c = '>' then text else if c = '=' then afterEquals else tag
  | afterEquals =>
      if h : isQuote c = true then value ⟨c, h⟩
      else if c = '>' then text
      else if c = '=' then afterEquals
      else tag
  | value quote => if c = quote.val then tag else value quote

/-- The position after a text. -/
def run (position : Position) (s : Text) : Position :=
  s.foldl next position

/-- Whether well-formed markup may have this character here: text has no quote and no `>`, tags have
quotes around values only and no `<`, and values have no other delimiter than the quote that ends
them. -/
def expects (position : Position) (c : Char) : Bool :=
  match position with
  | text => c == '<' || !isDelimiter c
  | tag => c == '>' || !isDelimiter c
  | afterEquals => c != '<'
  | value quote => c == quote.val || !isDelimiter c

/-- The position after a text that brings only what is expected. -/
def follow? (position : Position) : Text → Option Position
  | [] => some position
  | c :: s => if position.expects c then (position.next c).follow? s else none

@[simp] theorem follow?_nil (position : Position) : position.follow? [] = some position := rfl

theorem follow?_cons (position : Position) (c : Char) (s : Text) :
    position.follow? (c :: s) =
      if position.expects c then (position.next c).follow? s else none := rfl

theorem follow?_append (position : Position) (s t : Text) :
    position.follow? (s ++ t) = (position.follow? s).bind fun there => there.follow? t := by
  induction s generalizing position with
  | nil => rfl
  | cons c s ih =>
      rw [List.cons_append, follow?_cons, follow?_cons]
      split
      · exact ih _
      · rfl

/-- Where a text brings only what is expected, it ends where the tokenizer ends. -/
theorem run_of_follow? {position there : Position} {s : Text} (h : position.follow? s = some there) :
    position.run s = there := by
  induction s generalizing position with
  | nil => exact Option.some.inj h
  | cons c s ih =>
      rw [follow?_cons] at h
      split at h
      · exact ih h
      · cases h

/-- What a text brings at its start is expected, if all of it is. -/
theorem exists_follow?_of_append {position there : Position} {s t : Text}
    (h : position.follow? (s ++ t) = some there) :
    ∃ middle, position.follow? s = some middle ∧ middle.follow? t = some there := by
  rw [follow?_append] at h
  exact Option.bind_eq_some_iff.1 h

/-! ### The first pass -/

/-- The tokenizer and the first pass stand at the same kind of place. -/
def Agrees : Position → ValueScan → Prop
  | text, scan => scan ≠ .inside
  | tag, scan => scan = .outside
  | afterEquals, scan => scan = .afterEquals
  | value _, scan => scan = .inside

/-- Both start alike. -/
theorem agrees_outside : text.Agrees .outside := by simp [Agrees]

theorem Agrees.exists_value {position : Position} {scan : ValueScan} (h : position.Agrees scan)
    (hscan : scan = .inside) : ∃ quote, position = value quote := by
  subst hscan
  cases position with
  | text => exact absurd rfl h
  | tag => cases h
  | afterEquals => cases h
  | value quote => exact ⟨quote, rfl⟩

/-- As long as only expected characters come, both go on side by side. -/
theorem Agrees.next {position : Position} {scan : ValueScan} (h : position.Agrees scan) {c : Char}
    (hc : position.expects c = true) : (position.next c).Agrees (scan.next c) := by
  cases position with
  | text =>
      by_cases hlt : c = '<'
      · subst hlt
        cases scan <;> simp_all [Agrees, Position.next, ValueScan.next, isQuote]
      · have hdelimiter : isDelimiter c = false := by simpa [expects, hlt] using hc
        have hquote : isQuote c = false := not_isQuote_of_not_isDelimiter hdelimiter
        rw [Position.next, if_neg hlt]
        cases scan with
        | outside => by_cases heq : c = '=' <;> simp [Agrees, ValueScan.next, heq]
        | afterEquals =>
            by_cases heq : c = '='
            · simp [Agrees, ValueScan.next, heq, isQuote]
            · simp [Agrees, ValueScan.next, heq, hquote]
        | inside => exact absurd rfl h
  | tag =>
      obtain rfl : scan = .outside := h
      by_cases hgt : c = '>'
      · subst hgt
        simp [Position.next, Agrees, ValueScan.next]
      · by_cases heq : c = '=' <;> simp [Position.next, Agrees, ValueScan.next, hgt, heq]
  | afterEquals =>
      obtain rfl : scan = .afterEquals := h
      by_cases hquote : isQuote c = true
      · simp [Position.next, Agrees, ValueScan.next, hquote]
      · by_cases hgt : c = '>'
        · subst hgt
          simp [Position.next, Agrees, ValueScan.next, isQuote]
        · by_cases heq : c = '='
          · simp [Position.next, Agrees, ValueScan.next, heq, isQuote]
          · simp [Position.next, Agrees, ValueScan.next, hquote, hgt, heq]
  | value quote =>
      obtain rfl : scan = .inside := h
      by_cases hc' : c = quote.val
      · have hdelimiter : isDelimiter c = true := by
          rw [hc']
          exact isDelimiter_of_isQuote quote.property
        simp [Position.next, Agrees, ValueScan.next, hc', hc' ▸ hdelimiter]
      · have hdelimiter : isDelimiter c = false := by simpa [expects, hc'] using hc
        simp [Position.next, Agrees, ValueScan.next, hc', hdelimiter]

theorem Agrees.run {position there : Position} {scan : ValueScan} (h : position.Agrees scan)
    {s : Text} (hs : position.follow? s = some there) : there.Agrees (scan.run s) := by
  induction s generalizing position scan with
  | nil =>
      obtain rfl := Option.some.inj hs
      exact h
  | cons c s ih =>
      rw [follow?_cons] at hs
      split at hs
      · next hc => exact ih (h.next hc) hs
      · cases hs

/-- Erasing values keeps the place where a text ends, and whether it has only what is expected. -/
theorem follow?_eraseValues {position : Position} {scan : ValueScan} (h : position.Agrees scan)
    (s : Text) : position.follow? (eraseValues scan s) = position.follow? s := by
  induction s generalizing position scan with
  | nil => rfl
  | cons c s ih =>
      by_cases hdrop : scan = .inside ∧ (!isDelimiter c) = true
      · -- only a value agrees with the inside of a value, and it stays there
        have hdelimiter : isDelimiter c = false := by simpa using hdrop.2
        obtain ⟨quote, rfl⟩ := h.exists_value hdrop.1
        have hne : c ≠ quote.val :=
          ne_of_not_isDelimiter hdelimiter (isDelimiter_of_isQuote quote.property)
        have hexpects : (value quote).expects c = true := by simp [expects, hdelimiter]
        have hnext : (value quote).next c = value quote := if_neg hne
        rw [eraseValues, if_pos hdrop, follow?_cons, if_pos hexpects, hnext]
        exact ih (show (value quote).Agrees .inside from rfl)
      · rw [eraseValues, if_neg hdrop, follow?_cons, follow?_cons]
        split
        · next hc => exact ih (h.next hc)
        · rfl

/-! ### The other passes -/

theorem expects_of_not_isDelimiter (position : Position) {c : Char} (h : isDelimiter c = false) :
    position.expects c = true := by
  have hlt : c ≠ '<' := ne_of_not_isDelimiter h rfl
  cases position <;> simp [expects, h, hlt]

/-- Tags open in text only. -/
theorem eq_text_of_expects {position : Position} (h : position.expects '<' = true) :
    position = text := by
  cases position with
  | text => rfl
  | tag => exact absurd h (by decide)
  | afterEquals => exact absurd h (by decide)
  | value quote =>
      have hne : '<' ≠ quote.val := (ne_of_kind quote.property rfl).symm
      simp [expects, hne, isDelimiter] at h

/-- The names of tags and attributes stay in the tag. -/
theorem follow?_tag_name {name : Text} (h : ∀ c ∈ name, isAttributeChar c = true) (s : Text) :
    tag.follow? (name ++ s) = tag.follow? s := by
  induction name with
  | nil => rfl
  | cons c name ih =>
      have hc := h c (List.mem_cons_self ..)
      have hexpects := expects_of_not_isDelimiter tag
        (not_isDelimiter_of_isAttributeChar hc)
      have hnext : tag.next c = tag := by
        rw [next, if_neg (ne_of_kind hc rfl), if_neg (ne_of_kind hc rfl)]
      rw [List.cons_append, follow?_cons, if_pos hexpects, hnext]
      exact ih fun d hd => h d (List.mem_cons_of_mem _ hd)

/-- An empty value in quotes stays in the tag. -/
theorem follow?_tag_marks {mark rest : Text} (h : Marks mark rest) :
    tag.follow? (mark ++ rest) = tag.follow? rest := by
  rcases h with ⟨quote, hquote, rfl⟩ | ⟨rfl, -⟩
  · rcases isQuote_iff.1 hquote with rfl | rfl
    · simp [follow?_cons, expects, next, isDelimiter, isQuote]
    · simp [follow?_cons, expects, next, isDelimiter, isQuote]
  · rfl

/-- A finished attribute stays in the tag. -/
theorem follow?_dropAttributes (s : Text) : tag.follow? (dropAttributes s) = tag.follow? s := by
  fun_induction dropAttributes s with
  | case1 s rest h ih =>
      obtain ⟨name, mark, -, hname, hmarks, rfl⟩ := finishedAttribute?_eq_some_iff.1 h
      have hspace : tag.follow? (' ' :: (name ++ (mark ++ rest))) =
          tag.follow? (name ++ (mark ++ rest)) := rfl
      rw [ih, hspace, follow?_tag_name hname, follow?_tag_marks hmarks]
  | case2 s h => rfl

theorem follow?_eraseAttributes (position : Position) (s : Text) :
    position.follow? (eraseAttributes s) = position.follow? s := by
  induction s using eraseAttributes_induction generalizing position with
  | nil => rw [eraseAttributes]
  | tag name s hne hname hs ih =>
      have hattribute : ∀ c ∈ name, isAttributeChar c = true :=
        fun c hc => isAttributeChar_of_isNameChar (hname c hc)
      rw [eraseAttributes_tag hne hname hs, follow?_cons, follow?_cons]
      split
      · next hexpects =>
          obtain rfl := eq_text_of_expects hexpects
          have hnext : text.next '<' = tag := rfl
          rw [hnext, follow?_tag_name hattribute, follow?_tag_name hattribute, ih,
            follow?_dropAttributes]
      · rfl
  | cons c s hc ih =>
      rw [eraseAttributes_cons hc, follow?_cons, follow?_cons, ih]

theorem follow?_text_plain {c : Char} (h : isDelimiter c = false) (s : Text) :
    text.follow? (c :: s) = text.follow? s := by
  have hlt : c ≠ '<' := ne_of_not_isDelimiter h rfl
  rw [follow?_cons, if_pos (expects_of_not_isDelimiter text h), next, if_neg hlt]

/-- A whole tag leads back to text. -/
theorem follow?_wholeTag {s rest : Text} (h : wholeTag? s = some rest) :
    text.follow? s = text.follow? rest := by
  obtain ⟨slash, name, hslash, -, hname, rfl⟩ := wholeTag?_eq_some_iff.1 h
  have hattribute : ∀ c ∈ name, isAttributeChar c = true :=
    fun c hc => isAttributeChar_of_isNameChar (hname c hc)
  have hopen : text.follow? ('<' :: (slash ++ (name ++ '>' :: rest))) =
      tag.follow? (name ++ '>' :: rest) := by
    rcases hslash with rfl | rfl <;> rfl
  rw [hopen, follow?_tag_name hattribute]
  rfl

theorem follow?_eraseClosed (s : Text) : text.follow? (eraseClosed s) = text.follow? s := by
  fun_induction eraseClosed s with
  | case1 => rfl
  | case2 c s hc ih => rw [ih, follow?_text_plain (by simpa using hc)]
  | case3 c s hc rest h ih => rw [ih, follow?_wholeTag h]
  | case4 c s hc h => rfl

/-! ### Residues -/

theorem follow?_leftOpen (s : Text) : text.follow? (leftOpen s) = text.follow? s := by
  rw [leftOpen, follow?_eraseClosed, follow?_eraseAttributes, follow?_eraseValues agrees_outside]

/-- **Advancing keeps the place where the text ends**, and whether the text has only what is
expected. -/
theorem follow?_advance (residue : Residue) (literal : Text) :
    text.follow? (residue.advance literal).text = text.follow? (residue.text ++ literal) := by
  by_cases hliteral : literal = []
  · rw [hliteral, List.append_nil]
    rfl
  · rw [Residue.advance_of_ne_nil hliteral, follow?_leftOpen]

/-- A settled residue that ends with `=` and a quote is inside a value.  It cannot be behind one: the
`=` would have stood in the value, and no text stands there. -/
theorem exists_value_of_inQuotedAttribute {residue : Residue} (hsettled : Settled residue.text)
    {position : Position} (h : text.follow? residue.text = some position)
    (hquoted : residue.inQuotedAttribute = true) : ∃ quote, position = value quote := by
  obtain ⟨before, quote, hquote, htext⟩ := Residue.inQuotedAttribute_iff.1 hquoted
  rw [htext] at h hsettled
  obtain ⟨middle, hbefore, hend⟩ := exists_follow?_of_append h
  have hagrees := agrees_outside.run hbefore
  have hlt : quote ≠ '<' := ne_of_kind hquote rfl
  have hopen : afterEquals.follow? [quote] = some (value ⟨quote, hquote⟩) := by
    simp [follow?_cons, expects, next, hlt, hquote]
  cases middle with
  | text =>
      have hstop : text.expects quote = false := by
        simp [expects, hlt, isDelimiter_of_isQuote hquote]
      have hequals : text.follow? ['=', quote] = text.follow? [quote] := rfl
      rw [hequals, follow?_cons, hstop] at hend
      cases hend
  | tag =>
      have hequals : tag.follow? ['=', quote] = afterEquals.follow? [quote] := rfl
      rw [hequals, hopen] at hend
      exact ⟨_, (Option.some.inj hend).symm⟩
  | afterEquals =>
      have hequals : afterEquals.follow? ['=', quote] = afterEquals.follow? [quote] := rfl
      rw [hequals, hopen] at hend
      exact ⟨_, (Option.some.inj hend).symm⟩
  | value quote' =>
      have hinside : ValueScan.outside.run before = .inside := hagrees
      have hdrop : eraseValues .inside ['=', quote] = eraseValues .inside [quote] := rfl
      rw [Settled, eraseValues_append, hinside, hdrop] at hsettled
      have hlen := congrArg List.length hsettled
      have hbeforeLen := length_eraseValues_le .outside before
      have hendLen := length_eraseValues_le .inside [quote]
      simp only [List.length_append, List.length_cons, List.length_nil] at hlen hendLen
      omega

end Position

end Markup

end SafeTemplate
