/-
**What is written with character references.**

A character that means something to a reader of HTML is written as a reference, which starts with an
ampersand and goes on with characters that mean nothing.  The ampersand is one of these characters, so
an ampersand that was in the text starts a reference, too.  A reader that replaces references from left
to right therefore meets them exactly where they were written, also if the text has references in it or
parts of them, and it gives the text back.

A block of a source that inserts its value escaped inserts the value in this form, wherever it stands.

Main definitions:

* `Text.references`, `Text.resolveHtml` — the references, and the text that they are read as;
* `Text.HtmlForm` — a text in a form that can stand between tags or inside quotes;
* `Block.Expands` — how far a source is expanded, and what is put out on the way.

Main results:

* `Text.resolveHtml_reference`, `Text.resolveHtml_plain` — how the reader takes its steps;
* `Text.htmlForm_escapeHtml` — **what is escaped is in this form**;
* `Block.substitute_of_expands` — an expansion goes on with what is left;
* `Project.htmlForm_inserted` — **what an escaped block inserts is its value in this form**.
-/

import Mathlib.Data.List.Infix
import SafeTemplate.Proofs.Substitution

set_option autoImplicit false

namespace SafeTemplate

namespace Text

/-! ### Reading references -/

/-- The character references, each with the character that it stands for. -/
def references : List (Text × Char) :=
  [("&amp;".toList, '&'), ("&lt;".toList, '<'), ("&gt;".toList, '>'), ("&quot;".toList, '"'),
    ("&#39;".toList, '\'')]

/-- The character that a reference at the start of a text stands for, and what follows it. -/
def reference? (s : Text) : Option (Char × Text) :=
  references.findSome? fun entry => (after? entry.1 s).map fun rest => (entry.2, rest)

theorem exists_of_reference? {s rest : Text} {c : Char} (h : reference? s = some (c, rest)) :
    ∃ name, (name, c) ∈ references ∧ s = name ++ rest := by
  obtain ⟨⟨name, c'⟩, hmem, hafter⟩ := List.exists_of_findSome?_eq_some h
  obtain ⟨rest', hrest, heq⟩ := Option.map_eq_some_iff.1 hafter
  cases heq
  exact ⟨name, hmem, after?_eq_some_iff.1 hrest⟩

theorem length_lt_of_reference? {s rest : Text} {c : Char} (h : reference? s = some (c, rest)) :
    rest.length < s.length := by
  obtain ⟨name, hmem, rfl⟩ := exists_of_reference? h
  have hpos : ∀ entry ∈ references, 0 < entry.1.length := by decide
  have hname : 0 < name.length := hpos _ hmem
  rw [List.length_append]
  omega

/-- The text that is read where references stand for characters.  They are replaced from left to
right, each once. -/
def resolveHtml (s : Text) : Text :=
  match s with
  | [] => []
  | c :: s =>
      match _h : reference? (c :: s) with
      | some (d, rest) => d :: resolveHtml rest
      | none => c :: resolveHtml s
termination_by s.length
decreasing_by
  · exact length_lt_of_reference? _h
  · simp

/-- The only ampersand of a reference is its first character. -/
theorem exists_tail_of_mem_references {name : Text} {c : Char} (h : (name, c) ∈ references) :
    ∃ tail, name = '&' :: tail ∧ '&' ∉ tail := by
  have htails : ∀ entry ∈ references, entry.1 = '&' :: entry.1.tail ∧ '&' ∉ entry.1.tail := by
    decide
  exact ⟨name.tail, htails _ h⟩

/-- A reference is read as its character. -/
theorem resolveHtml_reference {name : Text} {c : Char} (h : (name, c) ∈ references) (s : Text) :
    resolveHtml (name ++ s) = c :: resolveHtml s := by
  have hread : reference? (name ++ s) = some (c, s) := by
    simp only [references, List.mem_cons, Prod.mk.injEq, List.not_mem_nil, or_false] at h
    rcases h with ⟨rfl, rfl⟩ | ⟨rfl, rfl⟩ | ⟨rfl, rfl⟩ | ⟨rfl, rfl⟩ | ⟨rfl, rfl⟩ <;> rfl
  obtain ⟨tail, rfl, -⟩ := exists_tail_of_mem_references h
  rw [List.cons_append] at hread ⊢
  rw [resolveHtml]
  split
  · next hsome =>
      rw [hread] at hsome
      cases hsome
      rfl
  · next hnone => cases hread.symm.trans hnone

/-- A character that starts no reference is read as itself. -/
theorem resolveHtml_plain {c : Char} (h : c ≠ '&') (s : Text) :
    resolveHtml (c :: s) = c :: resolveHtml s := by
  rw [resolveHtml]
  split
  · next hsome =>
      obtain ⟨name, hmem, hsplit⟩ := exists_of_reference? hsome
      obtain ⟨tail, rfl, -⟩ := exists_tail_of_mem_references hmem
      exact absurd (List.cons.inj hsplit).1 h
  · rfl

/-! ### The form of a text -/

/-- `written` is a form of `text` that can stand between tags or inside quotes: it has neither angle
brackets nor quotes, each ampersand in it starts a reference, and it is read as `text`. -/
structure HtmlForm (text written : Text) : Prop where
  marks : ∀ mark ∈ ['<', '>', '"', '\''], mark ∉ written
  ampersands : ∀ rest, '&' :: rest <:+ written → ∃ entry ∈ references, entry.1 <+: '&' :: rest
  resolved : resolveHtml written = text

/-- A character is written as its reference, or as itself. -/
theorem entity_cases (c : Char) : (entity c, c) ∈ references ∨ entity c = [c] ∧ c ≠ '&' := by
  unfold entity
  split
  case h_6 hamp _ _ _ _ => exact .inr ⟨rfl, hamp⟩
  all_goals exact .inl (by decide)

theorem mark_not_mem_entity (c : Char) : ∀ mark ∈ ['<', '>', '"', '\''], mark ∉ entity c := by
  unfold entity
  split
  case h_6 _ hless hgreater hquote hapostrophe =>
    simp [Ne.symm hless, Ne.symm hgreater, Ne.symm hquote, Ne.symm hapostrophe]
  all_goals simp

/-- What starts with a character that a text does not have starts behind the text. -/
theorem suffix_of_suffix_append {c : Char} {s t rest : Text} (hc : c ∉ s)
    (h : c :: rest <:+ s ++ t) : c :: rest <:+ t := by
  induction s with
  | nil => exact h
  | cons d s ih =>
      rw [List.mem_cons, not_or] at hc
      rw [List.cons_append, List.suffix_cons_iff] at h
      rcases h with heq | hrest
      · exact absurd (List.cons.inj heq).1 hc.1
      · exact ih hc.2 hrest

/-- A character can be put before a text, as it is written. -/
theorem HtmlForm.cons {text written : Text} (h : HtmlForm text written) (c : Char) :
    HtmlForm (c :: text) (entity c ++ written) where
  marks := by
    intro mark hmark hmem
    rcases List.mem_append.1 hmem with hentity | hwritten
    · exact mark_not_mem_entity c mark hmark hentity
    · exact h.marks mark hmark hwritten
  ampersands := by
    intro rest hrest
    rcases entity_cases c with hmem | ⟨hself, hplain⟩
    · obtain ⟨tail, hname, hfree⟩ := exists_tail_of_mem_references hmem
      rw [hname, List.cons_append, List.suffix_cons_iff] at hrest
      rcases hrest with heq | hbehind
      · refine ⟨_, hmem, ?_⟩
        rw [heq, hname]
        exact List.prefix_append ('&' :: tail) written
      · exact h.ampersands rest (suffix_of_suffix_append hfree hbehind)
    · rw [hself] at hrest
      exact h.ampersands rest (suffix_of_suffix_append (by simpa using Ne.symm hplain) hrest)
  resolved := by
    rcases entity_cases c with hmem | ⟨hself, hplain⟩
    · rw [resolveHtml_reference hmem, h.resolved]
    · rw [hself, List.singleton_append, resolveHtml_plain hplain, h.resolved]

theorem htmlForm_nil : HtmlForm [] [] where
  marks := fun _ _ => List.not_mem_nil
  ampersands := fun _ hrest => absurd (List.suffix_nil.1 hrest) (List.cons_ne_nil _ _)
  resolved := by rw [resolveHtml]

/-- **What is escaped is in this form.** -/
theorem htmlForm_escapeHtml (s : Text) : HtmlForm s (escapeHtml s) := by
  induction s with
  | nil => exact htmlForm_nil
  | cons c s ih => exact ih.cons c

end Text

/-! ### Escaped blocks -/

namespace Block

/-- How far a source is expanded: `done` is put out, and `rest` is left of the source.  `insert` gives
what the blocks insert. -/
inductive Expands {m : Type → Type} [Monad m] (insert : Block → m Text) :
    Text → Text → Text → Prop
  | start (s : Text) : Expands insert s [] s
  | char {c : Char} {s done rest : Text} (hread : read? (c :: s) = none)
      (hmore : Expands insert s done rest) : Expands insert (c :: s) (c :: done) rest
  | block {s behind text done rest : Text} {block : Block} (hread : read? s = some (block, behind))
      (hinsert : insert block = pure text) (hmore : Expands insert behind done rest) :
      Expands insert s (text ++ done) rest

/-- **An expansion goes on with what is left.** -/
theorem substitute_of_expands {m : Type → Type} [Monad m] [LawfulMonad m] {insert : Block → m Text}
    {s done rest : Text} (h : Expands insert s done rest) :
    substitute insert s = (done ++ ·) <$> substitute insert rest := by
  induction h with
  | start s => simp
  | char hread hmore ih =>
      rw [substitute_cons hread, ih]
      simp
  | block hread hinsert hmore ih =>
      rw [substitute_of_read? hread, hinsert, ih]
      simp

end Block

namespace Project

/-- **What is escaped can stand anywhere and is read as what it was**: it has neither angle brackets
nor quotes, its ampersands start references, and these give the text back; and texts are escaped part
by part.  So where an escaped block of a source has been expanded, the plain text of its value stands
in this form, behind what was put out before and followed by the expansion of what is left. -/
theorem htmlForm_inserted (s t : Text) :
    Text.HtmlForm s (Text.escapeHtml s) ∧
      Text.escapeHtml (s ++ t) = Text.escapeHtml s ++ Text.escapeHtml t ∧
      ∀ (project : Project) (disk : Disk) (levels : Nat) (source done rest behind body out : Text),
        Block.Expands (insert (project.evaluate disk levels)) source done rest →
        Block.read? rest = some (⟨.escaped, body⟩, behind) →
        project.render disk levels source = some (.ok out) →
        ∃ value text more, valueOf (project.evaluate disk levels) body = some (.ok value) ∧
          project.render disk levels behind = some (.ok more) ∧ out = done ++ (text ++ more) ∧
          text = Text.escapeHtml value.plain ∧ Text.HtmlForm value.plain text := by
  refine ⟨Text.htmlForm_escapeHtml s, Text.escapeHtml_append s t, ?_⟩
  intro project disk levels source done rest behind body out hexpands hread hrender
  rw [render_eq, Block.substitute_of_expands hexpands, Block.substitute_of_read? hread, insert]
    at hrender
  rw [render_eq]
  obtain ⟨_, hput, rfl⟩ := Attempt.map_eq_ok_iff.1 hrender
  obtain ⟨_, htext, hrest⟩ := Attempt.bind_eq_ok_iff.1 hput
  obtain ⟨value, hvalue, rfl⟩ := Attempt.map_eq_ok_iff.1 htext
  obtain ⟨more, hmore, hall⟩ := Attempt.bind_eq_ok_iff.1 hrest
  cases hall
  exact ⟨value, _, more, hvalue, hmore, rfl, rfl, Text.htmlForm_escapeHtml _⟩

/-- A project with an array of a text and an object. -/
def nestedProject : Project :=
  ⟨[(['x'], .array [.string "<b>".toList, .object [(['k'], .string "it's &lt;".toList)]])], ['.'],
    .coffeeScript⟩

/-- The value is printed with quotes, and a reference in it is written as text. -/
theorem htmlForm_inserted_nested :
    Block.Expands (insert (nestedProject.evaluate (.blank 0) 0)) "&<%- x %>'".toList ['&']
        "<%- x %>'".toList ∧
      Block.read? "<%- x %>'".toList = some (⟨.escaped, " x ".toList⟩, ['\'']) ∧
      nestedProject.render (.blank 0) 0 "&<%- x %>'".toList =
        some (.ok "&&lt;b&gt;,\x7b&quot;k&quot;:&quot;it&#39;s &amp;lt;&quot;\x7d'".toList) ∧
      ∃ value text more, valueOf (nestedProject.evaluate (.blank 0) 0) " x ".toList = some (.ok value) ∧
        nestedProject.render (.blank 0) 0 ['\''] = some (.ok more) ∧
        "&&lt;b&gt;,\x7b&quot;k&quot;:&quot;it&#39;s &amp;lt;&quot;\x7d'".toList =
          ['&'] ++ (text ++ more) ∧
        text = Text.escapeHtml value.plain ∧ Text.HtmlForm value.plain text := by
  have hexpands : Block.Expands (insert (nestedProject.evaluate (.blank 0) 0)) "&<%- x %>'".toList ['&']
      "<%- x %>'".toList :=
    .char rfl (.start _)
  have hread : Block.read? "<%- x %>'".toList = some (⟨.escaped, " x ".toList⟩, ['\'']) := rfl
  have hvalue : valueOf (nestedProject.evaluate (.blank 0) 0) " x ".toList =
      some (.ok (.array [.string "<b>".toList, .object [(['k'], .string "it's &lt;".toList)]])) := by
    have hquery : Query.parse " x ".toList = .ok (.path ['x'] []) := rfl
    rw [valueOf, hquery]
    rfl
  have hbehind : Block.substitute (insert (nestedProject.evaluate (.blank 0) 0)) ['\''] =
      some (.ok ['\'']) := by
    rw [Block.substitute_cons rfl, Block.substitute]
    rfl
  have hrender : nestedProject.render (.blank 0) 0 "&<%- x %>'".toList =
      some (.ok "&&lt;b&gt;,\x7b&quot;k&quot;:&quot;it&#39;s &amp;lt;&quot;\x7d'".toList) := by
    rw [render_eq, Block.substitute_of_expands hexpands, Block.substitute_of_read? hread, insert]
    simp only [hvalue, hbehind]
    rfl
  exact ⟨hexpands, hread, hrender,
    (htmlForm_inserted [] []).2.2 _ _ _ _ _ _ _ _ _ hexpands hread hrender⟩

end Project

end SafeTemplate
