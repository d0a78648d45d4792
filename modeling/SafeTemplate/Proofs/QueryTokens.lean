/-
**Reading the tokens of a query.**

The tokens of a query need no blanks between them: what comes next always shows where a name or a
number ends.  So all that a piece of the reader has to know of the text behind it is the next
character that is no blank.  Each kind of token is read as far as it goes, and what is read is a
token.

Main definition: `Query.Next` — what the next character may be that is no blank.

Main results:

* `Query.Next.eat`, `Query.Next.stop` — no other character is eaten, and no name or number goes on;
* `Query.readName_of_isName`, `Query.exists_name_of_readName` — names;
* `Query.readQuoted_body`, `Query.exists_body_of_readQuoted` — texts in quotes;
* `Query.readNumber_append`, `Query.exists_token_of_readNumber` — numbers.
-/

import SafeTemplate.Proofs.Erasure
import SafeTemplate.Proofs.QueryText

set_option autoImplicit false

namespace SafeTemplate.Query

/-! ### Blanks -/

/-- No visible character of ASCII is blank. -/
theorem not_isBlank_of_visible {c : Char} (h : 33 ≤ c.toNat) (h' : c.toNat ≤ 126) :
    Text.isBlank c = false := by
  simp only [Text.isBlank, Text.blankRanges, List.any_cons, List.any_nil, Bool.or_false,
    Bool.or_eq_false_iff, Bool.and_eq_false_iff, decide_eq_false_iff_not]
  omega

theorem not_isBlank_of_isNameChar {c : Char} (h : isNameChar c = true) : Text.isBlank c = false := by
  simp only [isNameChar, Char.isAlphanum, Char.isAlpha, Char.isUpper, Char.isLower, Char.isDigit,
    Bool.or_eq_true, Bool.and_eq_true, decide_eq_true_eq, UInt32.le_iff_toNat_le, beq_iff_eq,
    ge_iff_le, Char.toNat_val, Char.reduceToNat] at h
  rcases h with (h | rfl) | rfl
  · exact not_isBlank_of_visible (by omega) (by omega)
  · rfl
  · rfl

theorem isNameChar_of_isNameStart {c : Char} (h : isNameStart c = true) : isNameChar c = true := by
  simp only [isNameStart, isNameChar, Char.isAlphanum, Bool.or_eq_true] at h ⊢
  rcases h with (h | h) | h
  · exact Or.inl (Or.inl (Or.inl h))
  · exact Or.inl (Or.inr h)
  · exact Or.inr h

theorem not_isBlank_of_isDigit {c : Char} (h : c.isDigit = true) : Text.isBlank c = false :=
  not_isBlank_of_isNameChar (by simp [isNameChar, Char.isAlphanum, h])

theorem not_isBlank_of_isNumberChar {c : Char} (h : isNumberChar c = true) :
    Text.isBlank c = false := by
  simp only [isNumberChar, Bool.or_eq_true, beq_iff_eq] at h
  rcases h with h | rfl
  · exact not_isBlank_of_isDigit h
  · rfl

theorem skipBlank_append {blanks s : Text} (h : IsBlank blanks)
    (hs : ∀ c ∈ s.head?, Text.isBlank c = false) : Text.skipBlank (blanks ++ s) = s :=
  Markup.dropWhile_append_stop h hs

theorem exists_blanks (s : Text) : ∃ blanks, IsBlank blanks ∧ s = blanks ++ Text.skipBlank s :=
  ⟨s.takeWhile Text.isBlank, List.all_eq_true.1 List.all_takeWhile,
    List.takeWhile_append_dropWhile.symm⟩

/-! ### The next character that is no blank -/

/-- The next character that is no blank, if there is one, is one of these. -/
def Next (choices : List Char) (s : Text) : Prop :=
  ∀ c ∈ (Text.skipBlank s).head?, c ∈ choices

namespace Next

variable {choices : List Char} {s : Text}

theorem blank (h : IsBlank s) : Next choices s := by
  have hnil := skipBlank_append (s := []) h (by simp)
  rw [List.append_nil] at hnil
  simp [Next, hnil]

theorem cons {blanks : Text} (h : IsBlank blanks) {c : Char} (hc : Text.isBlank c = false)
    (hmem : c ∈ choices) : Next choices (blanks ++ c :: s) := by
  intro d hd
  rw [skipBlank_append h (Markup.stop_cons hc s)] at hd
  obtain rfl := Option.some.inj hd
  exact hmem

theorem mono (h : Next choices s) {choices' : List Char} (hsub : choices ⊆ choices') :
    Next choices' s :=
  fun c hc => hsub (h c hc)

/-- No other character is eaten. -/
theorem eat (h : Next choices s) {c : Char} (hc : c ∉ choices) : Query.eat c s = none := by
  unfold Query.eat
  split
  · next d rest heq =>
      have hmem : d ∈ choices := h d (by rw [heq]; rfl)
      rw [if_neg (fun hdc : d = c => hc (hdc ▸ hmem))]
  · rfl

/-- A run of characters ends before blanks and these characters, if it holds none. -/
theorem stop (h : Next choices s) {p : Char → Bool}
    (hplain : ∀ {c}, p c = true → Text.isBlank c = false) (hchoices : ∀ c ∈ choices, p c = false) :
    ∀ c ∈ s.head?, p c = false := by
  intro c hc
  cases hb : Text.isBlank c with
  | true =>
      cases hp : p c with
      | false => rfl
      | true =>
          rw [hplain hp] at hb
          cases hb
  | false =>
      refine hchoices c (h c ?_)
      rw [List.eq_cons_of_mem_head? hc]
      simp [Text.skipBlank, hb]

/-- A name ends before blanks and these characters. -/
theorem stop_name (h : Next choices s) (hchoices : ∀ c ∈ choices, isNameChar c = false) :
    ∀ c ∈ s.head?, isNameChar c = false :=
  h.stop not_isBlank_of_isNameChar hchoices

end Next

theorem eat_eq_some_iff {c : Char} {s rest : Text} :
    eat c s = some rest ↔ Text.skipBlank s = c :: rest := by
  unfold eat
  split
  · next d t heq =>
      rw [heq, List.cons.injEq]
      split
      · next hd => simp [hd]
      · next hd => simp [hd]
  · next heq => simp [heq]

theorem eat_append {blanks : Text} (h : IsBlank blanks) {c : Char} (hc : Text.isBlank c = false)
    (rest : Text) : eat c (blanks ++ c :: rest) = some rest :=
  eat_eq_some_iff.2 (skipBlank_append h (Markup.stop_cons hc rest))

theorem exists_blanks_of_eat {c : Char} {s rest : Text} (h : eat c s = some rest) :
    ∃ blanks, IsBlank blanks ∧ s = blanks ++ c :: rest := by
  obtain ⟨blanks, hblanks, hs⟩ := exists_blanks s
  rw [eat_eq_some_iff.1 h] at hs
  exact ⟨blanks, hblanks, hs⟩

/-! ### Tokens with blanks -/

theorem Spaced.append {tokens more : List Text} {s t : Text} (h : Spaced tokens s)
    (hmore : Spaced more t) : Spaced (tokens ++ more) (s ++ t) := by
  induction h with
  | nil => exact hmore
  | cons hblanks token h ih =>
      rw [List.append_assoc, List.append_assoc]
      exact .cons hblanks token ih

theorem Spaced.exists_append {tokens more : List Text} {s : Text} (h : Spaced (tokens ++ more) s) :
    ∃ front back, s = front ++ back ∧ Spaced tokens front ∧ Spaced more back := by
  induction tokens generalizing s with
  | nil => exact ⟨[], s, rfl, .nil, h⟩
  | cons token tokens ih =>
      cases h with
      | cons hblanks token h =>
          obtain ⟨front, back, rfl, hfront, hback⟩ := ih h
          exact ⟨_, back, by simp, .cons hblanks token hfront, hback⟩

theorem Spaced.exists_cons {token : Text} {tokens : List Text} {s : Text}
    (h : Spaced (token :: tokens) s) :
    ∃ blanks back, s = blanks ++ (token ++ back) ∧ IsBlank blanks ∧ Spaced tokens back := by
  cases h with
  | cons hblanks token h => exact ⟨_, _, rfl, hblanks, h⟩

theorem Spaced.exists_singleton {token s : Text} (h : Spaced [token] s) :
    ∃ blanks, s = blanks ++ token ∧ IsBlank blanks := by
  obtain ⟨blanks, back, rfl, hblanks, hback⟩ := h.exists_cons
  cases hback
  exact ⟨blanks, by rw [List.append_nil], hblanks⟩

theorem spaced_singleton {blanks : Text} (h : IsBlank blanks) (token : Text) :
    Spaced [token] (blanks ++ token) := by
  have hspaced := Spaced.cons h token .nil
  rwa [List.append_nil] at hspaced

theorem Spaced.length_le {tokens : List Text} {s : Text} (h : Spaced tokens s) :
    tokens.flatten.length ≤ s.length := by
  induction h with
  | nil => exact Nat.le_refl _
  | cons hblanks token h ih =>
      rw [List.flatten_cons, List.length_append, List.length_append, List.length_append]
      omega

/-- Before some tokens and what follows them, the next character that is no blank is the first of
the first token. -/
theorem Next.spaced {choices : List Char} {tokens : List Text} {front rest : Text}
    (h : Spaced tokens front) (hrest : Next choices rest)
    (htokens : ∀ token ∈ tokens.head?, ∃ c ∈ token.head?, Text.isBlank c = false ∧ c ∈ choices) :
    Next choices (front ++ rest) := by
  cases h with
  | nil => exact hrest
  | cons hblanks token h =>
      obtain ⟨c, hc, hplain, hmem⟩ := htokens token rfl
      rw [List.eq_cons_of_mem_head? hc, List.append_assoc, List.append_assoc]
      exact Next.cons hblanks hplain hmem

/-! ### Names -/

theorem readName_append_stop {name rest : Text} (h : IsName name)
    (hrest : ∀ c ∈ rest.head?, isNameChar c = false) : readName (name ++ rest) = (name, rest) := by
  rw [readName, Markup.takeWhile_append_stop h.chars hrest,
    Markup.dropWhile_append_stop h.chars hrest]

/-- What is read from a character that starts a name is a name. -/
theorem isName_readName {c : Char} (h : isNameStart c = true) (s : Text) :
    IsName (readName (c :: s)).1 := by
  refine ⟨⟨c, ?_, h⟩, ?_⟩
  · simp [readName, isNameChar_of_isNameStart h]
  · exact List.all_eq_true.1 List.all_takeWhile

theorem IsName.exists_cons {name : Text} (h : IsName name) :
    ∃ c t, name = c :: t ∧ isNameStart c = true := by
  obtain ⟨c, hc, hstart⟩ := h.start
  exact ⟨c, _, List.eq_cons_of_mem_head? hc, hstart⟩

/-- A name behind blanks is read. -/
theorem readName_of_isName {name : Text} (h : IsName name) {blanks : Text} (hblanks : IsBlank blanks)
    {rest : Text} (hrest : ∀ c ∈ rest.head?, isNameChar c = false) :
    ∃ c s', Text.skipBlank (blanks ++ (name ++ rest)) = c :: s' ∧ isNameStart c = true ∧
      readName (c :: s') = (name, rest) := by
  have hread := readName_append_stop h hrest
  obtain ⟨c, t, rfl, hstart⟩ := h.exists_cons
  have hplain := Markup.stop_cons (not_isBlank_of_isNameChar (isNameChar_of_isNameStart hstart))
  exact ⟨c, t ++ rest, skipBlank_append hblanks (hplain _), hstart, hread⟩

/-- Where a name is read, a name stands behind blanks. -/
theorem exists_name_of_readName {s s' name rest : Text} {c : Char}
    (hs : Text.skipBlank s = c :: s') (hc : isNameStart c = true)
    (hname : readName (c :: s') = (name, rest)) :
    IsName name ∧ ∃ blanks, IsBlank blanks ∧ s = blanks ++ (name ++ rest) := by
  have hisName := isName_readName hc s'
  have hsplit := readName_append (c :: s')
  rw [hname] at hisName hsplit
  obtain ⟨blanks, hblanks, hs'⟩ := exists_blanks s
  refine ⟨hisName, blanks, hblanks, ?_⟩
  rw [hs, ← hsplit] at hs'
  exact hs'

theorem mem_keywords {name : Text} : name ∈ keywords ↔ name = "true".toList ∨
    name = "false".toList ∨ name = "null".toList ∨ name = "undefined".toList := by
  rw [keywords, List.mem_cons, List.mem_cons, List.mem_cons, List.mem_singleton]

theorem keyword?_eq_none_iff {name : Text} : keyword? name = none ↔ name ∉ keywords := by
  have hsome : ∀ value : Json.Value, some value ≠ none := fun value h => by cases h
  rw [keyword?, mem_keywords]
  split
  · next h => exact iff_of_false (hsome _) (fun hn => hn (Or.inl h))
  · next htrue =>
      split
      · next h => exact iff_of_false (hsome _) (fun hn => hn (Or.inr (Or.inl h)))
      · next hfalse =>
          split
          · next h => exact iff_of_false (hsome _) (fun hn => hn (Or.inr (Or.inr h)))
          · next hnull =>
              refine iff_of_true rfl ?_
              rintro (h | h | h)
              · exact htrue h
              · exact hfalse h
              · exact hnull h

/-- A keyword is the token of its constant. -/
theorem constantToken_of_keyword? {name : Text} {value : Json.Value}
    (h : keyword? name = some value) : ConstantToken .free value name := by
  unfold keyword? at h
  split at h
  · next hname =>
      cases h
      exact hname ▸ .true
  · split at h
    · next hname =>
        cases h
        exact hname ▸ .false
    · split at h
      · next hname =>
          cases h
          rcases hname with hname | hname
          · exact hname ▸ .null
          · exact hname ▸ .undefined rfl
      · cases h

/-! ### Texts in quotes -/

theorem not_isBlank_of_isQuote {c : Char} (h : isQuote c = true) : Text.isBlank c = false := by
  simp only [isQuote, Bool.or_eq_true, beq_iff_eq] at h
  rcases h with rfl | rfl <;> rfl

/-- A character of a kind that neither quote is of is no quote. -/
theorem not_isQuote {p : Char → Bool} (hsingle : p '\'' = false) (hdouble : p '"' = false) {c : Char}
    (h : p c = true) : isQuote c = false := by
  simp only [isQuote, Bool.or_eq_false_iff, beq_eq_false_iff_ne]
  exact ⟨Markup.ne_of_kind h hsingle, Markup.ne_of_kind h hdouble⟩

/-- What stands between quotes is read up to the closing one. -/
theorem readQuoted_body {spelling : Spelling} {quote : Char} (hquote : isQuote quote = true)
    {text body : Text} (h : Body spelling quote text body) (rest : Text) :
    readQuoted quote (body ++ quote :: rest) = .ok (text, rest) := by
  have hne : '\\' ≠ quote := by
    rintro rfl
    cases hquote
  induction h with
  | nil =>
      unfold readQuoted
      simp
  | plain hplain hbackslash h ih =>
      unfold readQuoted
      simp [hplain, hbackslash, ih]
  | escape hescapes h ih =>
      unfold readQuoted
      simp [hne, ih]

theorem exists_body_of_readQuoted {quote : Char} {s rest text : Text}
    (h : readQuoted quote s = .ok (text, rest)) :
    ∃ body, Body .free quote text body ∧ s = body ++ quote :: rest := by
  fun_induction readQuoted quote s generalizing text with
  | case1 => cases h
  | case2 s =>
      cases h
      exact ⟨[], .nil, rfl⟩
  | case3 => cases h
  | case4 => cases h
  | case5 c s more s' hread hquote ih =>
      cases h
      obtain ⟨body, hbody, rfl⟩ := ih hread
      exact ⟨_, hbody.escape trivial, rfl⟩
  | case6 => cases h
  | case7 c s hquote hbackslash more s' hread ih =>
      cases h
      obtain ⟨body, hbody, rfl⟩ := ih hread
      exact ⟨_, hbody.plain hquote hbackslash, rfl⟩

/-! ### Numbers -/

theorem fits_signedValue {negative : Bool} {digits : Text} :
    Fits (signedValue negative digits) ↔
      if negative then Decimal.value digits ≤ Json.signedLimit
      else Decimal.value digits < Json.signedLimit := by
  have hpos : 0 < Json.signedLimit := by decide
  cases negative with
  | true =>
      simp only [Fits, signedValue, if_true]
      omega
  | false =>
      simp only [Fits, signedValue, Bool.false_eq_true, if_false]
      omega

theorem value?_of_digits {digits : Text} (hne : digits ≠ [])
    (h : ∀ c ∈ digits, c.isDigit = true) :
    Decimal.value? digits = some (Decimal.value digits) := by
  rw [Decimal.value?, if_pos]
  simpa [hne] using h

/-- Digits denote an integer if it fits. -/
theorem number?_of_isInteger {negative : Bool} {digits : Text} (h : IsInteger negative digits) :
    number? negative digits = some (.int (signedValue negative digits)) := by
  have hvalue := value?_of_digits h.nonempty h.all_digits
  have hfits := fits_signedValue.1 h.fits
  cases negative with
  | true =>
      rw [if_pos rfl] at hfits
      simp [number?, hvalue, hfits, signedValue]
  | false =>
      rw [if_neg Bool.false_ne_true] at hfits
      simp [number?, hvalue, hfits, signedValue]

/-- Everything else denotes a binary64 number, if anything. -/
theorem number?_of_not_isInteger {negative : Bool} {chars : Text}
    (h : ¬ IsInteger negative chars) :
    number? negative chars = (float? negative chars).map Json.Number.float := by
  by_cases hdigits : chars ≠ [] ∧ ∀ c ∈ chars, c.isDigit = true
  · obtain ⟨hne, hall⟩ := hdigits
    have hvalue := value?_of_digits hne hall
    have hfits := mt fits_signedValue.2 (fun hfits => h ⟨hne, hall, hfits⟩)
    cases negative with
    | true =>
        rw [if_pos rfl] at hfits
        simp [number?, hvalue, hfits]
    | false =>
        rw [if_neg Bool.false_ne_true] at hfits
        simp [number?, hvalue, hfits]
  · have hvalue : Decimal.value? chars = none := by
      rw [Decimal.value?, if_neg]
      simp only [Bool.and_eq_true, Bool.not_eq_true', List.isEmpty_eq_false_iff, List.all_eq_true]
      exact hdigits
    simp [number?, hvalue]

theorem IsInteger.starts {negative : Bool} {digits : Text} (h : IsInteger negative digits) :
    Starts negative digits := by
  cases hdigits : digits with
  | nil => exact absurd hdigits h.nonempty
  | cons c t => exact Or.inr ⟨c, rfl, h.all_digits c (hdigits ▸ List.mem_cons_self ..)⟩

theorem Starts.append {negative : Bool} {chars : Text} (h : Starts negative chars) (rest : Text) :
    Starts negative (chars ++ rest) := by
  rcases h with h | ⟨c, hc, hdigit⟩
  · exact Or.inl h
  · rw [List.eq_cons_of_mem_head? hc]
    exact Or.inr ⟨c, rfl, hdigit⟩

theorem Starts.exists_cons {negative : Bool} {chars : Text} (h : Starts negative chars) :
    ∃ c t, signedToken negative chars = c :: t ∧ (c.isDigit || c == '-') = true := by
  rcases h with rfl | ⟨c, hc, hdigit⟩
  · exact ⟨'-', chars, rfl, rfl⟩
  · cases negative with
    | true => exact ⟨'-', chars, rfl, rfl⟩
    | false => exact ⟨c, _, List.eq_cons_of_mem_head? hc, by simp [hdigit]⟩

/-- The sign is read, and then the number as far as it goes. -/
theorem readNumber_signedToken {negative : Bool} {chars rest : Text} (h : Starts negative chars)
    {n : Json.Number} :
    readNumber (signedToken negative chars) = .ok (n, rest) ↔
      number? negative (chars.takeWhile isNumberChar) = some n ∧
        chars.dropWhile isNumberChar = rest := by
  cases negative with
  | true =>
      cases hnumber : number? true (chars.takeWhile isNumberChar) <;>
        simp [readNumber, signedToken, hnumber]
  | false =>
      obtain ⟨c, hc, hdigit⟩ : ∃ c ∈ chars.head?, c.isDigit = true := by simpa [Starts] using h
      obtain ⟨t, rfl⟩ : ∃ t, chars = c :: t := ⟨_, List.eq_cons_of_mem_head? hc⟩
      have hne : c ≠ '-' := Markup.ne_of_kind hdigit rfl
      cases hnumber : number? false ((c :: t).takeWhile isNumberChar) <;>
        simp [readNumber, signedToken, hne, hnumber]

/-- A number is read up to the first character that it cannot hold. -/
theorem readNumber_append {spelling : Spelling} {n : Json.Number} {token rest : Text}
    (h : NumberToken spelling n token) (hrest : ∀ c ∈ rest.head?, isNumberChar c = false) :
    readNumber (token ++ rest) = .ok (n, rest) := by
  have happend : ∀ (negative : Bool) (chars : Text),
      signedToken negative chars ++ rest = signedToken negative (chars ++ rest) := by
    intro negative chars
    cases negative <;> rfl
  cases h with
  | @int negative digits h =>
      have hchars : ∀ c ∈ digits, isNumberChar c = true := fun c hc => by
        simp [isNumberChar, h.all_digits c hc]
      rw [happend, readNumber_signedToken (h.starts.append rest),
        Markup.takeWhile_append_stop hchars hrest, number?_of_isInteger h]
      exact ⟨rfl, Markup.dropWhile_append_stop hchars hrest⟩
  | float negative hfree hchars hint hread hstart =>
      rw [happend, readNumber_signedToken (hstart.append rest),
        Markup.takeWhile_append_stop hchars hrest, number?_of_not_isInteger hint, hread]
      exact ⟨rfl, Markup.dropWhile_append_stop hchars hrest⟩

theorem NumberToken.exists_cons {spelling : Spelling} {n : Json.Number} {token : Text}
    (h : NumberToken spelling n token) :
    ∃ c t, token = c :: t ∧ (c.isDigit || c == '-') = true := by
  cases h with
  | int negative h => exact h.starts.exists_cons
  | float negative hfree hchars hint hread hstart => exact hstart.exists_cons

/-- What is read as a number is a token for it. -/
theorem exists_token_of_readNumber {c : Char} (hc : (c.isDigit || c == '-') = true) {s rest : Text}
    {n : Json.Number} (h : readNumber (c :: s) = .ok (n, rest)) :
    ∃ token, NumberToken .free n token ∧ c :: s = token ++ rest := by
  obtain ⟨negative, chars, hs, hstarts⟩ : ∃ negative chars,
      c :: s = signedToken negative chars ∧ Starts negative chars := by
    by_cases hminus : c = '-'
    · exact ⟨true, s, by rw [hminus]; rfl, Or.inl rfl⟩
    · exact ⟨false, c :: s, rfl, Or.inr ⟨c, rfl, by simpa [hminus] using hc⟩⟩
  have hsplit : signedToken negative chars =
      signedToken negative (chars.takeWhile isNumberChar) ++ chars.dropWhile isNumberChar := by
    cases negative <;> simp [signedToken]
  have hchars : ∀ c ∈ chars.takeWhile isNumberChar, isNumberChar c = true :=
    List.all_eq_true.1 List.all_takeWhile
  rw [hs, readNumber_signedToken hstarts] at h
  obtain ⟨hnumber, rfl⟩ := h
  refine ⟨signedToken negative (chars.takeWhile isNumberChar), ?_, hs.trans hsplit⟩
  by_cases hint : IsInteger negative (chars.takeWhile isNumberChar)
  · rw [number?_of_isInteger hint] at hnumber
    cases hnumber
    exact .int negative hint
  · rw [number?_of_not_isInteger hint] at hnumber
    obtain ⟨x, hread, rfl⟩ := Option.map_eq_some_iff.1 hnumber
    refine .float negative rfl hchars hint hread ?_
    rcases hstarts with hstarts | ⟨d, hd, hdigit⟩
    · exact Or.inl hstarts
    · refine Or.inr ⟨d, ?_, hdigit⟩
      rw [List.eq_cons_of_mem_head? hd]
      simp [isNumberChar, hdigit]

end SafeTemplate.Query
