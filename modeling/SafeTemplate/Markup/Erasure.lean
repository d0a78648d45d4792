/-
**Erasing closed markup from a text.**

A text of markup is reduced to what it leaves open, in three passes:

1. the text of quoted attribute values, so that a value keeps its quotes only;
2. the finished attributes that follow the name of a tag;
3. the text and the whole tags at the start.

This is no reader of HTML: it knows tags by `<` and a name, attributes by one space and a name, and
values by `=` and a quote, which is all that the places for placeholders depend on.

Main definitions:

* `Markup.ValueScan`, `Markup.eraseValues` — the first pass, as an automaton that copies or drops one
  character at a time;
* `Markup.finishedAttribute?`, `Markup.dropAttributes`, `Markup.eraseAttributes` — the second pass;
* `Markup.wholeTag?`, `Markup.eraseClosed` — the third pass.

Main results:

* `Markup.eraseValues_append` — the first pass works piece by piece;
* `Markup.length_lt_of_finishedAttribute?`, `Markup.length_lt_of_wholeTag?` — each step of the other
  two takes at least one character.
-/

import SafeTemplate.Text.Basic

set_option autoImplicit false

namespace SafeTemplate.Markup

/-! ### Characters -/

/-- The two quotes that enclose attribute values. -/
def isQuote (c : Char) : Bool :=
  c == '\'' || c == '"'

/-- The characters that open or close something: the quotes and the angle brackets. -/
def isDelimiter (c : Char) : Bool :=
  isQuote c || c == '<' || c == '>'

/-- The characters of a tag name. -/
def isNameChar (c : Char) : Bool :=
  c.isAlphanum || c == '_'

/-- The characters of an attribute name. -/
def isAttributeChar (c : Char) : Bool :=
  isNameChar c || c == '-'

/-! ### Attribute values -/

/-- Where the first pass stands: outside of values, right after an `=`, or inside a value. -/
inductive ValueScan
  | outside
  | afterEquals
  | inside
  deriving DecidableEq, Repr

/-- Where the first pass stands after one more character. -/
def ValueScan.next (scan : ValueScan) (c : Char) : ValueScan :=
  match scan with
  | .inside => if isDelimiter c then .outside else .inside
  | .afterEquals => if isQuote c then .inside else if c = '=' then .afterEquals else .outside
  | .outside => if c = '=' then .afterEquals else .outside

/-- Drops the text of each quoted value: the characters from an `=` and a quote up to the next
delimiter. -/
def eraseValues (scan : ValueScan) : Text → Text
  | [] => []
  | c :: s =>
      if scan = .inside ∧ !isDelimiter c then eraseValues .inside s
      else c :: eraseValues (scan.next c) s

/-- Where the first pass stands after a text. -/
def ValueScan.run (scan : ValueScan) (s : Text) : ValueScan :=
  s.foldl ValueScan.next scan

theorem eraseValues_append (scan : ValueScan) (s t : Text) :
    eraseValues scan (s ++ t) = eraseValues scan s ++ eraseValues (scan.run s) t := by
  induction s generalizing scan with
  | nil => rfl
  | cons c s ih =>
      simp only [List.cons_append, eraseValues, ValueScan.run, List.foldl_cons]
      split
      · next h =>
          have hc : isDelimiter c = false := by simpa using h.2
          simp [ih, ValueScan.run, ValueScan.next, h.1, hc]
      · simp [ih, ValueScan.run]

/-! ### Finished attributes -/

/-- What follows a finished attribute at the start of the text: one space, a name, and an empty value
in quotes.  The value may be missing if a space or `>` follows. -/
def finishedAttribute? : Text → Option Text
  | ' ' :: s =>
      if (s.takeWhile isAttributeChar).isEmpty then none
      else
        match s.dropWhile isAttributeChar with
        | '=' :: '\'' :: '\'' :: rest => some rest
        | '=' :: '"' :: '"' :: rest => some rest
        -- What shows that a bare name is finished is left where it is.
        | ' ' :: rest => some (' ' :: rest)
        | '>' :: rest => some ('>' :: rest)
        | _ => none
  | _ => none

theorem length_lt_of_finishedAttribute? {s rest : Text} (h : finishedAttribute? s = some rest) :
    rest.length < s.length := by
  unfold finishedAttribute? at h
  split at h
  · next s =>
      have hle := (List.dropWhile_suffix (l := s) isAttributeChar).length_le
      split at h
      · cases h
      · split at h
        all_goals cases h
        all_goals
          next heq =>
            rw [heq] at hle
            simp only [List.length_cons] at hle ⊢
            omega
  · cases h

/-- The text without the finished attributes at its start. -/
def dropAttributes (s : Text) : Text :=
  match _h : finishedAttribute? s with
  | some rest => dropAttributes rest
  | none => s
termination_by s.length
decreasing_by exact length_lt_of_finishedAttribute? _h

theorem length_dropAttributes_le (s : Text) : (dropAttributes s).length ≤ s.length := by
  fun_induction dropAttributes s with
  | case1 s rest h ih =>
      have := length_lt_of_finishedAttribute? h
      omega
  | case2 => exact Nat.le_refl _

/-- Drops, after each `<` and name, the finished attributes that follow. -/
def eraseAttributes (s : Text) : Text :=
  match s with
  | [] => []
  | c :: s =>
      let name := s.takeWhile isNameChar
      if c = '<' ∧ !name.isEmpty then
        c :: (name ++ eraseAttributes (dropAttributes (s.dropWhile isNameChar)))
      else c :: eraseAttributes s
termination_by s.length
decreasing_by
  · have h₁ := length_dropAttributes_le (s.dropWhile isNameChar)
    have h₂ := (List.dropWhile_suffix (l := s) isNameChar).length_le
    simp only [List.length_cons]
    omega
  · simp

/-! ### Closed structure -/

/-- What follows a whole tag without attributes at the start of the text: `<name>` or `</name>`. -/
def wholeTag? : Text → Option Text
  | '<' :: s =>
      let s :=
        match s with
        | '/' :: rest => rest
        | rest => rest
      if (s.takeWhile isNameChar).isEmpty then none
      else
        match s.dropWhile isNameChar with
        | '>' :: rest => some rest
        | _ => none
  | _ => none

theorem length_lt_of_wholeTag? {s rest : Text} (h : wholeTag? s = some rest) :
    rest.length < s.length := by
  unfold wholeTag? at h
  split at h
  · next s =>
      dsimp only at h
      generalize hs : (match s with | '/' :: rest => rest | rest => rest) = name at h
      have hname : name.length ≤ s.length := by
        subst hs
        split <;> simp
      have hle := (List.dropWhile_suffix (l := name) isNameChar).length_le
      split at h
      · cases h
      · split at h
        · next heq =>
            cases h
            rw [heq] at hle
            simp only [List.length_cons] at hle ⊢
            omega
        · cases h
  · cases h

/-- Drops text and whole tags at the start, as far as they go. -/
def eraseClosed (s : Text) : Text :=
  match s with
  | [] => []
  | c :: s =>
      if !isDelimiter c then eraseClosed s
      else
        match _h : wholeTag? (c :: s) with
        | some rest => eraseClosed rest
        | none => c :: s
termination_by s.length
decreasing_by
  · simp
  · exact length_lt_of_wholeTag? _h

end SafeTemplate.Markup
