/-
**The shape of residues.**

The residue of a whole run of literal texts is made piece by piece, and each piece goes through three
passes that know nothing of each other.  What one pass has put in order another could spoil: the
second brings characters together that were apart, and the third shows a new start.  Neither does.
A text from which the first pass takes nothing keeps this through the other two, and the third pass
stops only where neither text nor a whole tag is left.  So every residue has one shape, however the
literal texts are cut.

A residue that starts with a quote or a `>` is past repair: no pass takes its first character away, so
whatever comes behind it, the way does not lead back to top level.

Main definitions: `Markup.Reduced`, `Markup.Stray`.

Main results:

* `Markup.wholeTag?_eraseClosed`, `Markup.isDelimiter_of_settled` — what the passes establish;
* `Residue.reduced_advance` — one step keeps the shape;
* `Residue.head?_advance_of_stray` — one step keeps a stray first character;
* `Residue.foldl_advance_reduced` — **residues are reduced, and stray ones stay stray**, over whole
  runs.
-/

import SafeTemplate.Proofs.Erasure

set_option autoImplicit false

namespace SafeTemplate

namespace Markup

/-! ### What the passes establish -/

/-- The third pass stops only in front of a delimiter. -/
theorem isDelimiter_of_mem_head?_eraseClosed (s : Text) :
    ∀ c ∈ (eraseClosed s).head?, isDelimiter c = true := by
  fun_induction eraseClosed s with
  | case1 => simp
  | case2 c s hc ih => exact ih
  | case3 c s hc rest h ih => exact ih
  | case4 c s hc h =>
      intro d hd
      obtain rfl : c = d := by simpa using hd
      simpa using hc

/-- The third pass leaves no whole tag at the start. -/
theorem wholeTag?_eraseClosed (s : Text) : wholeTag? (eraseClosed s) = none := by
  fun_induction eraseClosed s with
  | case1 => rfl
  | case2 c s hc ih => exact ih
  | case3 c s hc rest h ih => exact ih
  | case4 c s hc h => exact h

/-- In a settled text no value holds any text: what stands behind an `=` and a quote is a delimiter. -/
theorem isDelimiter_of_settled {before after : Text} {quote c : Char}
    (h : Settled (before ++ '=' :: quote :: c :: after)) (hquote : isQuote quote = true) :
    isDelimiter c = true := by
  have hvalue : Settled ('=' :: quote :: c :: after) := h.of_suffix (List.suffix_append before _)
  have hne : quote ≠ '=' := ne_of_kind hquote rfl
  have hopen : eraseValues .outside ('=' :: quote :: c :: after) =
      '=' :: quote :: eraseValues .inside (c :: after) := by
    simp [eraseValues, ValueScan.next, hquote]
  rw [Settled, hopen] at hvalue
  have hinside : eraseValues .inside (c :: after) = c :: after :=
    (List.cons.inj (List.cons.inj hvalue).2).2
  -- inside a value only delimiters are kept
  refine Classical.byContradiction fun hc => ?_
  rw [eraseValues, if_pos ⟨rfl, by simpa using hc⟩] at hinside
  have hle := length_eraseValues_le .inside after
  rw [hinside, List.length_cons] at hle
  omega

/-! ### Reduced texts -/

/-- A text as the passes leave it: it is empty or starts with a delimiter, no whole tag stands at its
start, and the values in it are empty. -/
structure Reduced (s : Text) : Prop where
  starts : s = [] ∨ ∃ c t, s = c :: t ∧ (c = '\'' ∨ c = '"' ∨ c = '<' ∨ c = '>')
  no_startTag : ∀ name rest, name ≠ [] → (∀ c ∈ name, isNameChar c = true) →
    s ≠ '<' :: (name ++ '>' :: rest)
  no_endTag : ∀ name rest, name ≠ [] → (∀ c ∈ name, isNameChar c = true) →
    s ≠ '<' :: '/' :: (name ++ '>' :: rest)
  no_value : ∀ before quote c after, quote = '\'' ∨ quote = '"' →
    s = before ++ '=' :: quote :: c :: after → c = '\'' ∨ c = '"' ∨ c = '<' ∨ c = '>'

theorem isDelimiter_cases {c : Char} (h : isDelimiter c = true) :
    c = '\'' ∨ c = '"' ∨ c = '<' ∨ c = '>' := by
  rwa [isDelimiter_iff, isQuote_iff, or_assoc] at h

theorem reduced_nil : Reduced [] where
  starts := Or.inl rfl
  no_startTag := by simp
  no_endTag := by simp
  no_value := by simp

/-- What a text leaves open does not start with a whole tag. -/
theorem leftOpen_ne_tag (s : Text) {slash name rest : Text} (hslash : slash = [] ∨ slash = ['/'])
    (hne : name ≠ []) (hname : ∀ c ∈ name, isNameChar c = true) :
    leftOpen s ≠ '<' :: (slash ++ (name ++ '>' :: rest)) := by
  intro hopen
  have hnone : wholeTag? (leftOpen s) = none := wholeTag?_eraseClosed _
  have hsome : wholeTag? (leftOpen s) = some rest :=
    wholeTag?_eq_some_iff.2 ⟨slash, name, hslash, hne, hname, hopen⟩
  rw [hnone] at hsome
  cases hsome

/-- **What a text leaves open is reduced.** -/
theorem reduced_leftOpen (s : Text) : Reduced (leftOpen s) where
  starts := by
    have hhead := isDelimiter_of_mem_head?_eraseClosed (eraseAttributes (eraseValues .outside s))
    rw [← leftOpen] at hhead
    cases hopen : leftOpen s with
    | nil => exact Or.inl rfl
    | cons c t =>
        rw [hopen] at hhead
        exact Or.inr ⟨c, t, rfl, isDelimiter_cases (hhead c rfl)⟩
  no_startTag := fun _ _ hne hname => leftOpen_ne_tag s (Or.inl rfl) hne hname
  no_endTag := fun _ _ hne hname => leftOpen_ne_tag s (Or.inr rfl) hne hname
  no_value := by
    intro before quote c after hquote hopen
    have hsettled := settled_leftOpen s
    rw [hopen] at hsettled
    exact isDelimiter_cases (isDelimiter_of_settled hsettled (isQuote_iff.2 hquote))

/-! ### Stray characters -/

/-- The delimiters that open nothing where markup starts. -/
def Stray (c : Char) : Prop :=
  c = '\'' ∨ c = '"' ∨ c = '>'

/-- A stray character at the start of a text is still there when its closed structure is erased. -/
theorem head?_leftOpen_of_stray {c : Char} (hc : Stray c) (s : Text) :
    (leftOpen (c :: s)).head? = some c := by
  have hdelimiter : isDelimiter c = true := by
    rcases hc with rfl | rfl | rfl <;> rfl
  have hlt : c ≠ '<' := by
    rcases hc with rfl | rfl | rfl <;> decide
  have hvalues : eraseValues .outside (c :: s) =
      c :: eraseValues (ValueScan.outside.next c) s := by
    rw [eraseValues, if_neg (by simp)]
  rw [leftOpen, hvalues, eraseAttributes_cons fun h => absurd h hlt,
    eraseClosed_stuck hdelimiter (wholeTag?_of_ne hlt _)]
  rfl

end Markup

namespace Residue

open Markup

/-- **One step keeps the shape of a residue.** -/
theorem reduced_advance {residue : Residue} (h : Reduced residue.text) (literal : Text) :
    Reduced (residue.advance literal).text := by
  by_cases hliteral : literal = []
  · rw [hliteral]
    exact h
  · rw [advance_of_ne_nil hliteral]
    exact reduced_leftOpen _

theorem reduced_foldl_advance {residue : Residue} (h : Reduced residue.text) (literals : List Text) :
    Reduced (literals.foldl Residue.advance residue).text := by
  induction literals generalizing residue with
  | nil => exact h
  | cons literal literals ih => exact ih (reduced_advance h literal)

/-- **One step keeps a stray first character.** -/
theorem head?_advance_of_stray {residue : Residue} {c : Char} (hc : Stray c)
    (h : residue.text.head? = some c) (literal : Text) :
    (residue.advance literal).text.head? = some c := by
  by_cases hliteral : literal = []
  · rw [hliteral]
    exact h
  · obtain ⟨s, hs⟩ := List.head?_eq_some_iff.1 h
    rw [advance_of_ne_nil hliteral, hs]
    exact head?_leftOpen_of_stray hc (s ++ literal)

theorem head?_foldl_advance_of_stray {residue : Residue} {c : Char} (hc : Stray c)
    (h : residue.text.head? = some c) (literals : List Text) :
    (literals.foldl Residue.advance residue).text.head? = some c := by
  induction literals generalizing residue with
  | nil => exact h
  | cons literal literals ih => exact ih (head?_advance_of_stray hc h literal)

/-- **Residues are reduced, and stray ones stay stray.**  After any run of literal texts from top level
the residue is reduced; and once it starts with a quote or a `>`, it starts with that character after
whatever follows, so it never comes back to top level. -/
theorem foldl_advance_reduced (literals : List Text) :
    Reduced (literals.foldl Residue.advance topLevel).text ∧
      ∀ c, Stray c → (literals.foldl Residue.advance topLevel).text.head? = some c →
        ∀ more : List Text,
          ((literals ++ more).foldl Residue.advance topLevel).text.head? = some c ∧
            (literals ++ more).foldl Residue.advance topLevel ≠ topLevel := by
  refine ⟨reduced_foldl_advance reduced_nil literals, ?_⟩
  intro c hc hhead more
  have hstays : ((literals ++ more).foldl Residue.advance topLevel).text.head? = some c := by
    rw [List.foldl_append]
    exact head?_foldl_advance_of_stray hc hhead more
  refine ⟨hstays, ?_⟩
  intro htop
  rw [htop] at hstays
  cases hstays

/-- A quote in text is stray, and nothing behind it mends that. -/
example : ["<p>it's".toList, " <b>".toList, "</b></p>".toList].foldl advance topLevel =
    ⟨"'s <b></b></p>".toList⟩ := by cbv

end Residue

end SafeTemplate
