/-
**How queries are written.**

A query is written as a row of tokens with blanks around them.  Nearly every token is known from
what it stands for; but a text may stand between quotes of either kind, and the same key may be a
name behind a point or a text in brackets.  The tokens of the *plain* spelling escape a character
only if they must, and their numbers are integers.  The *free* spelling has any character behind a
backslash, numbers with a point and out of the range of integers, and another word for the absence
of a value.

Main definitions:

* `Query.Quoted`, `Query.NumberToken`, `Query.ConstantToken`, `Query.StepTokens` — the parts of a
  query and the tokens for them;
* `Query.Written` — a query and the tokens for it;
* `Query.Spaced`, `Query.Spells` — tokens with blanks before each, and around each;
* `Query.Expressible` — the queries that have a plain spelling.

Main results:

* `Query.Written.free` — the plain spelling is free;
* `Query.exists_written_iff` — **the queries with a plain spelling**.
-/

import Mathlib
import SafeTemplate.Query.Reader

set_option autoImplicit false

namespace SafeTemplate.Query

/-! ### Tokens -/

/-- How freely the tokens of a query may be chosen. -/
inductive Spelling
  | plain
  | free

/-- The characters that may stand behind a backslash between quotes of a kind. -/
def Spelling.Escapes : Spelling → (quote : Char) → Char → Prop
  | plain, quote, c => c = quote ∨ c = '\\'
  | free, _, _ => True

/-- A text and how it is written between quotes of a kind. -/
inductive Body (spelling : Spelling) (quote : Char) : Text → Text → Prop
  | nil : Body spelling quote [] []
  | plain {c : Char} {text body : Text} (hquote : c ≠ quote) (hbackslash : c ≠ '\\')
      (h : Body spelling quote text body) : Body spelling quote (c :: text) (c :: body)
  | escape {c : Char} {text body : Text} (hescapes : spelling.Escapes quote c)
      (h : Body spelling quote text body) :
      Body spelling quote (escaped c :: text) ('\\' :: c :: body)

/-- A text and a token for it. -/
inductive Quoted (spelling : Spelling) : Text → Text → Prop
  | mk {quote : Char} {text body : Text} (hquote : isQuote quote = true)
      (h : Body spelling quote text body) :
      Quoted spelling text (quote :: (body ++ [quote]))

/-- Some digits behind a minus sign, or without one. -/
def signedToken (negative : Bool) (digits : Text) : Text :=
  if negative then '-' :: digits else digits

/-- The integer that some digits denote behind a minus sign, or without one. -/
def signedValue (negative : Bool) (digits : Text) : Int :=
  if negative then -(Decimal.value digits : Int) else Decimal.value digits

/-- The integers of a signed 64-bit word. -/
def Fits (n : Int) : Prop :=
  -(Json.signedLimit : Int) ≤ n ∧ n < Json.signedLimit

/-- Whether some characters are digits, at least one, and denote an integer that fits. -/
structure IsInteger (negative : Bool) (digits : Text) : Prop where
  nonempty : digits ≠ []
  all_digits : ∀ c ∈ digits, c.isDigit = true
  fits : Fits (signedValue negative digits)

/-- Whether a number starts with a minus sign or a digit. -/
def Starts (negative : Bool) (chars : Text) : Prop :=
  negative = true ∨ ∃ c ∈ chars.head?, c.isDigit = true

/-- A number and a token for it.  What denotes an integer that fits denotes no other number. -/
inductive NumberToken (spelling : Spelling) : Json.Number → Text → Prop
  | int (negative : Bool) {digits : Text} (h : IsInteger negative digits) :
      NumberToken spelling (.int (signedValue negative digits)) (signedToken negative digits)
  | float (negative : Bool) {chars : Text} {x : Float} (hfree : spelling = .free)
      (hchars : ∀ c ∈ chars, isNumberChar c = true) (hint : ¬ IsInteger negative chars)
      (hread : float? negative chars = some x) (hstart : Starts negative chars) :
      NumberToken spelling (.float x) (signedToken negative chars)

/-- A constant and a token for it. -/
inductive ConstantToken (spelling : Spelling) : Json.Value → Text → Prop
  | true : ConstantToken spelling (.bool true) "true".toList
  | false : ConstantToken spelling (.bool false) "false".toList
  | null : ConstantToken spelling .null "null".toList
  | undefined (hfree : spelling = .free) : ConstantToken spelling .null "undefined".toList
  | string {text token : Text} (h : Quoted spelling text token) :
      ConstantToken spelling (.string text) token
  | number {n : Json.Number} {token : Text} (h : NumberToken spelling n token) :
      ConstantToken spelling (.number n) token

/-- A name. -/
structure IsName (name : Text) : Prop where
  start : ∃ c ∈ name.head?, isNameStart c = true
  chars : ∀ c ∈ name, isNameChar c = true

/-- The names that are constants. -/
def keywords : List Text :=
  ["true".toList, "false".toList, "null".toList, "undefined".toList]

/-- A step of a path and the tokens for it. -/
inductive StepTokens (spelling : Spelling) : Step → List Text → Prop
  | name {name : Text} (h : IsName name) : StepTokens spelling (.key name) [['.'], name]
  | key {key token : Text} (h : Quoted spelling key token) :
      StepTokens spelling (.key key) [['['], token, [']']]
  | index {digits : Text} (hne : digits ≠ []) (hdigits : ∀ c ∈ digits, c.isDigit = true)
      (hlt : Decimal.value digits < Json.wordLimit) :
      StepTokens spelling (.index (Decimal.value digits)) [['['], digits, [']']]

/-! ### Queries -/

/-- A query and the tokens for it.  The steps of a path and the arguments of a call are given with
their tokens. -/
inductive Written (spelling : Spelling) : Query → List Text → Prop
  | constant {value : Json.Value} {token : Text} (h : ConstantToken spelling value token) :
      Written spelling (.constant value) [token]
  | path {root : Text} (hroot : IsName root) (hkeyword : root ∉ keywords)
      (steps : List (Step × List Text))
      (hsteps : ∀ step ∈ steps, StepTokens spelling step.1 step.2) :
      Written spelling (.path root (steps.map Prod.fst)) (root :: (steps.map Prod.snd).flatten)
  | call {helper : Text} (hhelper : IsName helper) (hkeyword : helper ∉ keywords)
      (arguments : List (Query × List Text))
      (harguments : ∀ argument ∈ arguments, Written spelling argument.1 argument.2) :
      Written spelling (.call helper (arguments.map Prod.fst))
        (helper :: ['('] :: ([[',']].intercalate (arguments.map Prod.snd) ++ [[')']]))

/-- Some blanks. -/
def IsBlank (s : Text) : Prop :=
  ∀ c ∈ s, Text.isBlank c = true

/-- Some tokens with blanks before each. -/
inductive Spaced : List Text → Text → Prop
  | nil : Spaced [] []
  | cons {blanks : Text} (hblanks : IsBlank blanks) (token : Text) {tokens : List Text} {s : Text}
      (h : Spaced tokens s) : Spaced (token :: tokens) (blanks ++ (token ++ s))

/-- A text of some tokens with blanks around each. -/
def Spells (tokens : List Text) (source : Text) : Prop :=
  ∃ front blanks, source = front ++ blanks ∧ Spaced tokens front ∧ IsBlank blanks

/-- The queries that have a plain spelling. -/
inductive Expressible : Query → Prop
  | null : Expressible (.constant .null)
  | bool (b : Bool) : Expressible (.constant (.bool b))
  | string (text : Text) : Expressible (.constant (.string text))
  | integer {n : Int} (h : Fits n) : Expressible (.constant (.number (.int n)))
  | path {root : Text} (hroot : IsName root) (hkeyword : root ∉ keywords) {steps : List Step}
      (hsteps : ∀ position, Step.index position ∈ steps → position < Json.wordLimit) :
      Expressible (.path root steps)
  | call {helper : Text} (hhelper : IsName helper) (hkeyword : helper ∉ keywords)
      {arguments : List Query} (harguments : ∀ argument ∈ arguments, Expressible argument) :
      Expressible (.call helper arguments)

/-! ### Plain spellings are free -/

theorem Body.free {spelling : Spelling} {quote : Char} {text body : Text}
    (h : Body spelling quote text body) : Body .free quote text body := by
  induction h with
  | nil => exact .nil
  | plain hquote hbackslash _ ih => exact .plain hquote hbackslash ih
  | escape _ _ ih => exact .escape trivial ih

theorem Quoted.free {spelling : Spelling} {text token : Text} (h : Quoted spelling text token) :
    Quoted .free text token := by
  obtain ⟨hquote, hbody⟩ := h
  exact ⟨hquote, hbody.free⟩

theorem ConstantToken.free {spelling : Spelling} {value : Json.Value} {token : Text}
    (h : ConstantToken spelling value token) : ConstantToken .free value token := by
  cases h with
  | true => exact .true
  | false => exact .false
  | null => exact .null
  | undefined _ => exact .undefined rfl
  | string h => exact .string h.free
  | number h =>
      cases h with
      | int negative h => exact .number (.int negative h)
      | float negative _ hchars hint hread hstart =>
          exact .number (.float negative rfl hchars hint hread hstart)

theorem StepTokens.free {spelling : Spelling} {step : Step} {tokens : List Text}
    (h : StepTokens spelling step tokens) : StepTokens .free step tokens := by
  cases h with
  | name h => exact .name h
  | key h => exact .key h.free
  | index hne hdigits hlt => exact .index hne hdigits hlt

/-- **The plain spelling is free.** -/
theorem Written.free {spelling : Spelling} {query : Query} {tokens : List Text}
    (h : Written spelling query tokens) : Written .free query tokens := by
  induction h with
  | constant h => exact .constant h.free
  | path hroot hkeyword steps hsteps =>
      exact .path hroot hkeyword steps (fun step hstep => (hsteps step hstep).free)
  | call hhelper hkeyword arguments _ ih => exact .call hhelper hkeyword arguments ih

/-! ### The queries with a plain spelling -/

/-- Every text can be written between quotes of either kind. -/
theorem exists_body (spelling : Spelling) {quote : Char} (hquote : isQuote quote = true)
    (text : Text) : ∃ body, Body spelling quote text body := by
  induction text with
  | nil => exact ⟨[], .nil⟩
  | cons c text ih =>
      obtain ⟨body, hbody⟩ := ih
      by_cases hc : c = quote ∨ c = '\\'
      · have hescaped : escaped c = c := by
          rcases hc with rfl | rfl
          · simp only [isQuote, Bool.or_eq_true, beq_iff_eq] at hquote
            rcases hquote with rfl | rfl <;> rfl
          · rfl
        have hescapes : spelling.Escapes quote c := by
          cases spelling with
          | plain => exact hc
          | free => exact trivial
        have hcons := hbody.escape hescapes
        rw [hescaped] at hcons
        exact ⟨_, hcons⟩
      · exact ⟨_, hbody.plain (fun h => hc (Or.inl h)) (fun h => hc (Or.inr h))⟩

theorem exists_quoted (spelling : Spelling) (text : Text) : ∃ token, Quoted spelling text token := by
  have hquote : isQuote '"' = true := rfl
  obtain ⟨body, hbody⟩ := exists_body spelling hquote text
  exact ⟨_, .mk hquote hbody⟩

/-- Every integer that fits has a numeral. -/
theorem exists_numberToken (spelling : Spelling) {n : Int} (h : Fits n) :
    ∃ token, NumberToken spelling (.int n) token := by
  have hvalue : signedValue (decide (n < 0)) (Decimal.numeral n.natAbs) = n := by
    simp only [signedValue, Decimal.value_numeral, decide_eq_true_eq]
    split <;> omega
  have hinteger : IsInteger (decide (n < 0)) (Decimal.numeral n.natAbs) := by
    refine ⟨?_, fun c hc => Decimal.isDigit_of_mem_numeral hc, ?_⟩
    · exact Nat.toDigits_ne_nil
    · rw [hvalue]
      exact h
  have htoken : NumberToken spelling _ _ := .int _ hinteger
  rw [hvalue] at htoken
  exact ⟨_, htoken⟩

theorem exists_stepTokens (spelling : Spelling) {step : Step}
    (h : ∀ position, step = .index position → position < Json.wordLimit) :
    ∃ tokens, StepTokens spelling step tokens := by
  cases step with
  | key key =>
      obtain ⟨token, htoken⟩ := exists_quoted spelling key
      exact ⟨_, .key htoken⟩
  | index position =>
      have htokens : StepTokens spelling _ [['['], Decimal.numeral position, [']']] :=
        .index Nat.toDigits_ne_nil (fun c hc => Decimal.isDigit_of_mem_numeral hc)
          (by simpa using h position rfl)
      rw [Decimal.value_numeral] at htokens
      exact ⟨_, htokens⟩

/-- Items that have tokens each make a list of items with their tokens. -/
theorem exists_pairs {α : Type} {P : α → List Text → Prop} {items : List α}
    (h : ∀ item ∈ items, ∃ tokens, P item tokens) :
    ∃ pairs : List (α × List Text), pairs.map Prod.fst = items ∧
      ∀ pair ∈ pairs, P pair.1 pair.2 := by
  induction items with
  | nil => exact ⟨[], rfl, by simp⟩
  | cons item items ih =>
      obtain ⟨tokens, htokens⟩ := h item (List.mem_cons_self ..)
      obtain ⟨pairs, rfl, hpairs⟩ := ih (fun item' hmem => h item' (List.mem_cons_of_mem item hmem))
      refine ⟨(item, tokens) :: pairs, rfl, ?_⟩
      intro pair hpair
      rcases List.mem_cons.1 hpair with rfl | hpair
      · exact htokens
      · exact hpairs pair hpair

theorem Expressible.exists_written {query : Query} (h : Expressible query) (spelling : Spelling) :
    ∃ tokens, Written spelling query tokens := by
  induction h with
  | null => exact ⟨_, .constant .null⟩
  | bool b =>
      cases b with
      | true => exact ⟨_, .constant .true⟩
      | false => exact ⟨_, .constant .false⟩
  | string text =>
      obtain ⟨token, htoken⟩ := exists_quoted spelling text
      exact ⟨_, .constant (.string htoken)⟩
  | integer hfits =>
      obtain ⟨token, htoken⟩ := exists_numberToken spelling hfits
      exact ⟨_, .constant (.number htoken)⟩
  | path hroot hkeyword hsteps =>
      have htokens : ∀ step ∈ _, ∃ tokens, StepTokens spelling step tokens := fun step hmem =>
        exists_stepTokens spelling (fun position heq => hsteps position (heq ▸ hmem))
      obtain ⟨pairs, rfl, hpairs⟩ := exists_pairs htokens
      exact ⟨_, .path hroot hkeyword pairs hpairs⟩
  | call hhelper hkeyword harguments ih =>
      obtain ⟨pairs, rfl, hpairs⟩ := exists_pairs ih
      exact ⟨_, .call hhelper hkeyword pairs hpairs⟩

theorem Written.expressible {query : Query} {tokens : List Text} (h : Written .plain query tokens) :
    Expressible query := by
  induction h with
  | constant h =>
      cases h with
      | true => exact .bool true
      | false => exact .bool false
      | null => exact .null
      | undefined hfree => cases hfree
      | string _ => exact .string _
      | number h =>
          cases h with
          | int negative h => exact .integer h.fits
          | float negative hfree => cases hfree
  | path hroot hkeyword steps hsteps =>
      refine .path hroot hkeyword ?_
      intro position hmem
      obtain ⟨⟨step, tokens⟩, hpair, rfl⟩ := List.mem_map.1 hmem
      cases hsteps _ hpair with
      | index hne hdigits hlt => exact hlt
  | call hhelper hkeyword arguments _ ih =>
      refine .call hhelper hkeyword ?_
      intro argument hmem
      obtain ⟨pair, hpair, rfl⟩ := List.mem_map.1 hmem
      exact ih pair hpair

/-- **The queries with a plain spelling** are those built from texts, integers of a signed 64-bit
word, truth values, the absence of a value, paths whose positions fit a 64-bit word, and calls. -/
theorem exists_written_iff {query : Query} :
    (∃ tokens, Written .plain query tokens) ↔ Expressible query := by
  constructor
  · rintro ⟨tokens, h⟩
    exact h.expressible
  · intro h
    exact h.exists_written .plain

end SafeTemplate.Query
