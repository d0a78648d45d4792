/-
**Templates as they are written.**

A template is written as a sequence of parts, no two literal texts side by side.  A source is such a
sequence with everything that can be chosen in it: the units of literal text, the snippets, and how
many branches follow the head of a choice.  It knows its text and its meaning, and the markup it
leads through, without a word about how a template is read.

Main definitions:

* `Snippet`, `Insertion`, `Source` — the parts of a template, as they are written;
* `Source.text`, `Source.tree` — how a source is written, and what it means;
* `Source.depth` — how deep its branches nest;
* `Source.Alternates` — no two literal texts stand side by side;
* `Source.Leads` — every placeholder may stand where it does, and every branch ends where it starts;
* `Source.Derives` — the three conditions together.

Main results:

* `Source.stops_text` — literal text cannot be read where a source starts with a placeholder;
* `Source.text_unique` — the grammar is unambiguous: a source is known from its text, and so is the
  place where it ends.
-/

import SafeTemplate.Template.Reader
import SafeTemplate.Proofs.LiteralUnit

set_option autoImplicit false

namespace SafeTemplate

/-! ### Parts -/

/-- A snippet of host code that may stand in the head of a placeholder. -/
structure Snippet where
  text : Text
  plain : ∀ c ∈ text, Placeholder.Head.isSnippetChar c = true

/-- A head: a symbol and a snippet in braces. -/
def Snippet.headed (symbol : Char) (snippet : Snippet) : Text :=
  symbol :: '{' :: (snippet.text ++ ['}'])

/-- The placeholders that insert the value of their snippet. -/
inductive Insertion
  | escaped
  | element
  | elements
  deriving DecidableEq

namespace Insertion

/-- The kind of placeholder. -/
def kind : Insertion → Placeholder.Kind
  | escaped => .escaped
  | element => .element
  | elements => .elements

/-- The symbol that an insertion is written with. -/
def symbol : Insertion → Char
  | escaped => '$'
  | element => '&'
  | elements => '@'

/-- What an insertion means. -/
def tree (insertion : Insertion) (snippet : Text) : Tree :=
  match insertion with
  | escaped => .escaped snippet
  | element => .element snippet
  | elements => .elements snippet

end Insertion

/-- A template without parts is empty, any other is the sequence of its parts. -/
def Tree.ofParts : List Tree → Tree
  | [] => .empty
  | part :: more => .sequence (part :: more)

/-- A template as it is written, part by part. -/
inductive Source
  /-- No more parts. -/
  | nil
  /-- Literal text. -/
  | literal (units : List LiteralUnit) (nonempty : units ≠ []) (more : Source)
  /-- A placeholder that inserts a value. -/
  | insertion (kind : Insertion) (snippet : Snippet) (more : Source)
  /-- A choice without branches. -/
  | choice (condition : Snippet) (more : Source)
  /-- A choice with one branch. -/
  | choiceThen (condition : Snippet) (yes more : Source)
  /-- A choice with both branches. -/
  | choiceThenElse (condition : Snippet) (yes no more : Source)

namespace Source

/-- How a source is written. -/
def text : Source → Text
  | nil => []
  | literal units _ more => Literal.written units ++ more.text
  | insertion kind snippet more => snippet.headed kind.symbol ++ more.text
  | choice condition more => condition.headed '?' ++ more.text
  | choiceThen condition yes more =>
      condition.headed '?' ++ '{' :: (yes.text ++ '}' :: more.text)
  | choiceThenElse condition yes no more =>
      condition.headed '?' ++ '{' :: (yes.text ++ '}' :: '{' :: (no.text ++ '}' :: more.text))

/-- What the parts of a source mean.  A branch that is missing means the empty text. -/
def parts : Source → List Tree
  | nil => []
  | literal units _ more => .literal (Literal.meaning units) :: more.parts
  | insertion kind snippet more => kind.tree snippet.text :: more.parts
  | choice condition more => .choice condition.text .empty .empty :: more.parts
  | choiceThen condition yes more =>
      .choice condition.text (.ofParts yes.parts) .empty :: more.parts
  | choiceThenElse condition yes no more =>
      .choice condition.text (.ofParts yes.parts) (.ofParts no.parts) :: more.parts

/-- What a source means. -/
def tree (source : Source) : Tree :=
  .ofParts source.parts

/-- How deep branches nest. -/
def depth : Source → Nat
  | nil => 0
  | literal _ _ more => more.depth
  | insertion _ _ more => more.depth
  | choice _ more => more.depth
  | choiceThen _ yes more => max (yes.depth + 1) more.depth
  | choiceThenElse _ yes no more => max (max (yes.depth + 1) (no.depth + 1)) more.depth

/-- Whether the first part is literal text. -/
def startsLiteral : Source → Bool
  | literal _ _ _ => true
  | _ => false

/-- No two literal texts stand side by side, here and in every branch. -/
def Alternates : Source → Prop
  | nil => True
  | literal _ _ more => more.startsLiteral = false ∧ more.Alternates
  | insertion _ _ more => more.Alternates
  | choice _ more => more.Alternates
  | choiceThen _ yes more => yes.Alternates ∧ more.Alternates
  | choiceThenElse _ yes no more => yes.Alternates ∧ no.Alternates ∧ more.Alternates

/-- The literal texts of a source lead from one residue to another.  Every placeholder may stand
where it does, and every branch leads from the residue at its choice back to it. -/
def Leads : Source → Residue → Residue → Prop
  | nil, start, stop => start = stop
  | literal units _ more, start, stop =>
      more.Leads (start.advance (Literal.meaning units)) stop
  | insertion kind _ more, start, stop => kind.kind.allowed start = true ∧ more.Leads start stop
  | choice _ more, start, stop => more.Leads start stop
  | choiceThen _ yes more, start, stop => yes.Leads start start ∧ more.Leads start stop
  | choiceThenElse _ yes no more, start, stop =>
      yes.Leads start start ∧ no.Leads start start ∧ more.Leads start stop

/-- A source is a derivation of its text: its parts alternate, its branches nest at most `levels` deep,
and it leads from `start` to `stop`. -/
structure Derives (source : Source) (levels : Nat) (start stop : Residue) : Prop where
  alternates : source.Alternates
  depth_le : source.depth ≤ levels
  leads : source.Leads start stop

end Source

/-! ### Where reading stops -/

/-- A text that no part of a template starts: the end, or a closing brace. -/
def Ended (s : Text) : Prop :=
  s = [] ∨ ∃ rest, s = '}' :: rest

namespace Ended

theorem nil : Ended [] := Or.inl rfl

theorem closing (s : Text) : Ended ('}' :: s) := Or.inr ⟨s, rfl⟩

theorem stops {s : Text} (h : Ended s) : Literal.Stops s := by
  rcases h with rfl | ⟨rest, rfl⟩
  · exact Literal.stops_nil
  · exact Literal.stops_closing rest

theorem opensBrace {s : Text} (h : Ended s) : Literal.opensBrace s = false := by
  rcases h with rfl | ⟨rest, rfl⟩
  · rfl
  · rfl

end Ended

namespace Source

theorem opensBrace_text (source : Source) {rest : Text} (h : Literal.opensBrace rest = false) :
    Literal.opensBrace (source.text ++ rest) = false := by
  cases source with
  | nil => exact h
  | literal units nonempty more =>
      obtain ⟨unit, units, rfl⟩ := List.exists_cons_of_ne_nil nonempty
      simp only [text, Literal.written_cons, List.append_assoc]
      exact Literal.opensBrace_unit unit _
  | insertion kind snippet more => cases kind <;> rfl
  | choice condition more => rfl
  | choiceThen condition yes more => rfl
  | choiceThenElse condition yes no more => rfl

/-- Literal text cannot be read where a source starts with a placeholder. -/
theorem stops_text {source : Source} (h : source.startsLiteral = false) {rest : Text}
    (hrest : Literal.Stops rest) : Literal.Stops (source.text ++ rest) := by
  cases source with
  | nil => exact hrest
  | literal units nonempty more => simp [startsLiteral] at h
  | insertion kind snippet more => exact Literal.stops_head (by cases kind <;> rfl) _
  | choice condition more => exact Literal.stops_head rfl _
  | choiceThen condition yes more => exact Literal.stops_head rfl _
  | choiceThenElse condition yes no more => exact Literal.stops_head rfl _

end Source

/-! ### One source for a text -/

theorem Snippet.read?_headed {symbol : Char} (h : symbol ≠ '}') (snippet : Snippet) (rest : Text) :
    Placeholder.Head.read? (snippet.headed symbol ++ rest) = some (⟨symbol, snippet.text⟩, rest) := by
  have hstop : Placeholder.Head.isSnippetChar '}' = false := rfl
  have hdrop : (snippet.text ++ '}' :: rest).dropWhile Placeholder.Head.isSnippetChar =
      '}' :: rest := by
    rw [List.dropWhile_append_of_pos snippet.plain]
    simp [hstop]
  have htake : (snippet.text ++ '}' :: rest).takeWhile Placeholder.Head.isSnippetChar =
      snippet.text := by
    rw [List.takeWhile_append_of_pos snippet.plain]
    simp [hstop]
  simp [headed, Placeholder.Head.read?, h, hdrop, htake]

theorem Ended.read?_head {s : Text} (h : Ended s) : Placeholder.Head.read? s = none := by
  rcases h with rfl | ⟨rest, rfl⟩
  · rfl
  · cases rest with
    | nil => rfl
    | cons c rest =>
        unfold Placeholder.Head.read?
        split
        · next hs => simp [← (List.cons.inj hs).1]
        · rfl

theorem Insertion.symbol_ne_closing (kind : Insertion) : kind.symbol ≠ '}' := by
  cases kind <;> decide

theorem Insertion.symbol_ne_choice (kind : Insertion) : kind.symbol ≠ '?' := by
  cases kind <;> decide

theorem Insertion.symbol_injective : Function.Injective symbol := by
  intro kind kind' h
  cases kind <;> cases kind' <;> first | rfl | exact absurd h (by decide)

theorem Snippet.eq_of_text {snippet snippet' : Snippet} (h : snippet.text = snippet'.text) :
    snippet = snippet' := by
  cases snippet
  cases snippet'
  simpa using h

namespace Source

/-- The literal text that a source starts with, and what follows it. -/
def literal? (source : Source) (rest : Text) : Option (Text × Text) :=
  match source with
  | literal units _ more => some (Literal.written units, more.text ++ rest)
  | _ => none

/-- The head that a source starts with, and what follows it. -/
def head? (source : Source) (rest : Text) : Option (Placeholder.Head × Text) :=
  match source with
  | nil => none
  | literal _ _ _ => none
  | insertion kind snippet more => some (⟨kind.symbol, snippet.text⟩, more.text ++ rest)
  | choice condition more => some (⟨'?', condition.text⟩, more.text ++ rest)
  | choiceThen condition yes more =>
      some (⟨'?', condition.text⟩, '{' :: (yes.text ++ '}' :: (more.text ++ rest)))
  | choiceThenElse condition yes no more =>
      some (⟨'?', condition.text⟩,
        '{' :: (yes.text ++ '}' :: '{' :: (no.text ++ '}' :: (more.text ++ rest))))

/-- Literal text is read exactly where a source starts with some. -/
theorem read?_text {source : Source} (h : source.Alternates) {rest : Text} (hrest : Ended rest) :
    Literal.read? (source.text ++ rest) = source.literal? rest := by
  cases source with
  | literal units nonempty more =>
      rw [text, List.append_assoc]
      exact Literal.read?_written nonempty (stops_text h.1 hrest.stops)
        (more.opensBrace_text hrest.opensBrace)
  | _ => exact Literal.read?_of_stops (stops_text rfl hrest.stops)

/-- A head is read exactly where a source starts with a placeholder. -/
theorem read?_head_text {source : Source} (h : source.startsLiteral = false) {rest : Text}
    (hrest : Ended rest) : Placeholder.Head.read? (source.text ++ rest) = source.head? rest := by
  cases source with
  | nil => exact hrest.read?_head
  | literal units nonempty more => simp [startsLiteral] at h
  | insertion kind snippet more =>
      rw [text, List.append_assoc, Snippet.read?_headed kind.symbol_ne_closing]
      rfl
  | choice condition more =>
      rw [text, List.append_assoc, Snippet.read?_headed (by decide)]
      rfl
  | choiceThen condition yes more =>
      rw [text, List.append_assoc, Snippet.read?_headed (by decide)]
      simp [head?]
  | choiceThenElse condition yes no more =>
      rw [text, List.append_assoc, Snippet.read?_headed (by decide)]
      simp [head?]

/-- Two sources of one text start alike. -/
theorem head?_eq {source source' : Source} (h' : source'.Alternates)
    {rest rest' : Text} (hrest : Ended rest) (hrest' : Ended rest')
    (hstart : source.startsLiteral = false) (heq : source.text ++ rest = source'.text ++ rest') :
    source.head? rest = source'.head? rest' := by
  have hread := read?_text h' hrest'
  rw [← heq, Literal.read?_of_stops (stops_text hstart hrest.stops)] at hread
  have hstart' : source'.startsLiteral = false := by
    cases source' with
    | literal units nonempty more => simp [literal?] at hread
    | _ => rfl
  rw [← read?_head_text hstart hrest, heq, read?_head_text hstart' hrest']

/-- What follows a part of a source never opens a brace. -/
theorem text_append_ne {source : Source} {rest : Text} (hrest : Ended rest) (s : Text) :
    source.text ++ rest ≠ '{' :: s := by
  intro h
  have hbrace := source.opensBrace_text hrest.opensBrace
  rw [h] at hbrace
  simp [Literal.opensBrace] at hbrace

/-- **The grammar is unambiguous**: a text, with what follows it, is written by one source only. -/
theorem text_unique {source source' : Source} (h : source.Alternates) (h' : source'.Alternates)
    {rest rest' : Text} (hrest : Ended rest) (hrest' : Ended rest')
    (heq : source.text ++ rest = source'.text ++ rest') : source = source' ∧ rest = rest' := by
  -- what is read at the start of the text tells which part comes first in both sources
  induction source generalizing source' rest rest' with
  | nil =>
      have hhead := head?_eq h' hrest hrest' rfl heq
      have hread := read?_text h' hrest'
      rw [← heq, Literal.read?_of_stops (stops_text rfl hrest.stops)] at hread
      cases source' with
      | nil => exact ⟨rfl, heq⟩
      | literal units' nonempty' more' => simp [literal?] at hread
      | _ => simp [head?] at hhead
  | literal units nonempty more ih =>
      have hread := read?_text h hrest
      rw [heq, read?_text h' hrest'] at hread
      cases source' with
      | literal units' nonempty' more' =>
          simp only [literal?, Option.some.injEq, Prod.mk.injEq] at hread
          obtain rfl := Literal.written_injective hread.1
          obtain ⟨rfl, hend⟩ := ih h.2 h'.2 hrest hrest' hread.2.symm
          exact ⟨rfl, hend⟩
      | _ => simp [literal?] at hread
  | insertion kind snippet more ih =>
      have hhead := head?_eq h' hrest hrest' rfl heq
      cases source' with
      | insertion kind' snippet' more' =>
          simp only [head?, Option.some.injEq, Prod.mk.injEq, Placeholder.Head.mk.injEq] at hhead
          obtain ⟨⟨hkind, hsnippet⟩, hmore⟩ := hhead
          obtain rfl := Insertion.symbol_injective hkind
          obtain rfl := Snippet.eq_of_text hsnippet
          have hmore' : more'.Alternates := h'
          obtain ⟨rfl, hend⟩ := ih h hmore' hrest hrest' hmore
          exact ⟨rfl, hend⟩
      | _ => simp [head?, kind.symbol_ne_choice] at hhead
  | choice condition more ih =>
      have hhead := head?_eq h' hrest hrest' rfl heq
      cases source' with
      | insertion kind' snippet' more' => simp [head?, kind'.symbol_ne_choice.symm] at hhead
      | choice condition' more' =>
          simp only [head?, Option.some.injEq, Prod.mk.injEq, Placeholder.Head.mk.injEq,
            true_and] at hhead
          obtain rfl := Snippet.eq_of_text hhead.1
          have hmore' : more'.Alternates := h'
          obtain ⟨rfl, hend⟩ := ih h hmore' hrest hrest' hhead.2
          exact ⟨rfl, hend⟩
      | _ => simp [head?, text_append_ne hrest] at hhead
  | choiceThen condition yes more ihYes ihMore =>
      have hhead := head?_eq h' hrest hrest' rfl heq
      cases source' with
      | insertion kind' snippet' more' => simp [head?, kind'.symbol_ne_choice.symm] at hhead
      | choice condition' more' => simp [head?, (text_append_ne hrest' _).symm] at hhead
      | choiceThen condition' yes' more' =>
          simp only [head?, Option.some.injEq, Prod.mk.injEq, Placeholder.Head.mk.injEq,
            true_and, List.cons.injEq] at hhead
          obtain rfl := Snippet.eq_of_text hhead.1
          obtain ⟨rfl, hmore⟩ := ihYes h.1 h'.1 (.closing _) (.closing _) hhead.2
          obtain ⟨rfl, hend⟩ := ihMore h.2 h'.2 hrest hrest' (List.cons.inj hmore).2
          exact ⟨rfl, hend⟩
      | choiceThenElse condition' yes' no' more' =>
          simp only [head?, Option.some.injEq, Prod.mk.injEq, true_and, List.cons.injEq] at hhead
          obtain ⟨-, hmore⟩ := ihYes h.1 h'.1 (.closing _) (.closing _) hhead.2
          exact absurd (List.cons.inj hmore).2 (text_append_ne hrest _)
      | _ => simp [head?] at hhead
  | choiceThenElse condition yes no more ihYes ihNo ihMore =>
      have hhead := head?_eq h' hrest hrest' rfl heq
      cases source' with
      | insertion kind' snippet' more' => simp [head?, kind'.symbol_ne_choice.symm] at hhead
      | choice condition' more' => simp [head?, (text_append_ne hrest' _).symm] at hhead
      | choiceThen condition' yes' more' =>
          simp only [head?, Option.some.injEq, Prod.mk.injEq, true_and, List.cons.injEq] at hhead
          obtain ⟨-, hmore⟩ := ihYes h.1 h'.1 (.closing _) (.closing _) hhead.2
          exact absurd (List.cons.inj hmore).2.symm (text_append_ne hrest' _)
      | choiceThenElse condition' yes' no' more' =>
          simp only [head?, Option.some.injEq, Prod.mk.injEq, Placeholder.Head.mk.injEq,
            true_and, List.cons.injEq] at hhead
          obtain rfl := Snippet.eq_of_text hhead.1
          obtain ⟨rfl, hno⟩ := ihYes h.1 h'.1 (.closing _) (.closing _) hhead.2
          simp only [List.cons.injEq, true_and] at hno
          obtain ⟨rfl, hmore⟩ := ihNo h.2.1 h'.2.1 (.closing _) (.closing _) hno
          obtain ⟨rfl, hend⟩ := ihMore h.2.2 h'.2.2 hrest hrest' (List.cons.inj hmore).2
          exact ⟨rfl, hend⟩
      | _ => simp [head?] at hhead

end Source

end SafeTemplate
