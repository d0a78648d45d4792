/-
**What the expression of a template tells.**

A template becomes an expression in which its snippets and literal texts stand between backticks.  A
snippet is any text without a backtick: it may look like code, end with a backslash, or start like a
string literal.  A literal text may hold backticks, each behind a backslash, and so it may hold what
looks like the end of a snippet and the code behind it.  Still two templates with the same
expression mean the same.

The expression is read from left to right.  Which part comes first shows before its first backtick,
except that a literal text and an element both start with one.  To tell these apart, the first
*mark* — backtick or double quote — behind the next backtick is enough.  If that backtick is inside
a literal text, the mark stands behind a backslash or ends the literal; if it ends a snippet, the
mark opens something, behind a space or a parenthesis.

Main definitions:

* `Tree.Parts` — the parts that a template may mean;
* `Tree.codeAfter` — the code of some parts that others stand before;
* `Host.guarded` — how a text is written in a string literal between backticks;
* `Host.mark?`, `Host.Fresh`, `Tree.Follows` — the next mark, and what may stand behind a part.

Main results:

* `Host.guarded_append_inj` — a string literal between backticks tells its text, and where it ends;
* `Host.literal_append_ne` — no literal text is taken for an element;
* `Tree.codeAfter_append_inj` — **parts are known from their code**, whatever follows;
* `Template.parse_emit_injective` — templates with the same expression have the same meaning.
-/

import SafeTemplate.Proofs.Grammar
import SafeTemplate.Proofs.LiteralChar
import SafeTemplate.Template.Emission

set_option autoImplicit false

namespace SafeTemplate

/-! ### What stands before a character -/

/-- The text before the first occurrence of a character, and the text behind it, are known. -/
theorem Text.append_cons_inj {c : Char} {u v s t : Text} (hu : c ∉ u) (hv : c ∉ v)
    (h : u ++ c :: s = v ++ c :: t) : u = v ∧ s = t := by
  induction u generalizing v with
  | nil =>
      cases v with
      | nil => exact ⟨rfl, (List.cons.inj h).2⟩
      | cons d v => exact absurd (List.cons.inj h).1 (fun hd => hv (hd ▸ List.mem_cons_self ..))
  | cons d u ih =>
      cases v with
      | nil => exact absurd (List.cons.inj h).1.symm (fun hd => hu (hd ▸ List.mem_cons_self ..))
      | cons e v =>
          obtain ⟨rfl, htail⟩ := List.cons.inj h
          obtain ⟨rfl, hrest⟩ := ih (fun hmem => hu (List.mem_cons_of_mem d hmem))
            (fun hmem => hv (List.mem_cons_of_mem d hmem)) htail
          exact ⟨rfl, hrest⟩

namespace Host

/-! ### String literals between backticks -/

/-- How a text is written in a string literal that stands between backticks. -/
def guarded (s : Text) : Text :=
  s.flatMap (writtenChar .coffeeScript)

theorem guarded_cons (c : Char) (s : Text) :
    guarded (c :: s) = writtenChar .coffeeScript c ++ guarded s := rfl

theorem guarded_append (s t : Text) : guarded (s ++ t) = guarded s ++ guarded t := by
  simp [guarded]

theorem guardBackticks_quote (s : Text) :
    guardBackticks (Json.quote s) = '"' :: (guarded s ++ ['"']) := by
  have hescape : guardBackticks (Json.escape s) = guarded s := by
    rw [guardBackticks, Json.escape, List.flatMap_assoc]
    rfl
  rw [← hescape]
  simp [guardBackticks, Json.quote, guardChar]

theorem literal_coffeeScript (s : Text) :
    literal .coffeeScript s = '`' :: '"' :: (guarded s ++ ['"', '`']) := by
  simp [literal, embed, guardBackticks_quote]

theorem isMark_of_isBare {c : Char} (h : isBare .coffeeScript c = true) : isMark c = false :=
  (isBare_iff.1 h).2.1

theorem writtenChar_append_ne (c : Char) (s t : Text) : writtenChar .coffeeScript c ++ s ≠ '"' :: t := by
  intro h
  rcases writtenChar_cases .coffeeScript c with ⟨hwritten, hbare⟩ | ⟨next, run, hwritten, -⟩
  · rw [hwritten] at h
    have hmark := isMark_of_isBare hbare
    rw [(List.cons.inj h).1] at hmark
    cases hmark
  · rw [hwritten] at h
    exact absurd (List.cons.inj h).1 (by decide)

theorem backtick_not_mem_writtenChar {c : Char} (h : c ≠ '`') : '`' ∉ writtenChar .coffeeScript c := by
  rcases char_cases .coffeeScript c with hcontrol | rfl | hguarded | hbare
  · exact control_induction c hcontrol (by decide)
  · decide
  · rcases isGuarded_cases hguarded with rfl | ⟨-, rfl⟩
    · decide
    · exact absurd rfl h
  · rw [writtenChar_of_isBare hbare]
    simpa using h.symm

theorem backtick_not_mem_guarded {s : Text} (h : '`' ∉ s) : '`' ∉ guarded s := by
  intro hmem
  obtain ⟨c, hc, hwritten⟩ := List.mem_flatMap.1 hmem
  have hne : c ≠ '`' := fun heq => h (heq ▸ hc)
  exact backtick_not_mem_writtenChar hne hwritten

/-- **A string literal between backticks tells its text, and where it ends.** -/
theorem guarded_append_inj {s s' t t' : Text} (h : guarded s ++ '"' :: t = guarded s' ++ '"' :: t') :
    s = s' ∧ t = t' := by
  induction s generalizing s' with
  | nil =>
      cases s' with
      | nil => exact ⟨rfl, (List.cons.inj h).2⟩
      | cons c s' =>
          rw [guarded_cons, List.append_assoc] at h
          exact absurd h.symm (writtenChar_append_ne c _ t)
  | cons c s ih =>
      rw [guarded_cons, List.append_assoc] at h
      cases s' with
      | nil => exact absurd h (writtenChar_append_ne c _ t')
      | cons d s' =>
          rw [guarded_cons, List.append_assoc] at h
          have hread := congrArg (readChar? .coffeeScript) h
          rw [readChar?_writtenChar, readChar?_writtenChar] at hread
          obtain ⟨rfl, hrest⟩ := Prod.mk.inj (Option.some.inj hread)
          obtain ⟨rfl, ht⟩ := ih hrest
          exact ⟨rfl, ht⟩

/-! ### The next mark -/

/-- The first mark in a text, with what follows it and the character before it. -/
def mark? (before : Char) : Text → Option (Char × Text)
  | [] => none
  | c :: s => if isMark c then some (before, c :: s) else mark? c s

theorem mark?_cons {c : Char} (h : isMark c = false) (before : Char) (s : Text) :
    mark? before (c :: s) = mark? c s := by
  rw [mark?, h]
  rfl

theorem mark?_run {run : Text} (hrun : ∀ c ∈ run, isMark c = false) (before : Char) (s : Text) :
    ∃ before', mark? before (run ++ s) = mark? before' s := by
  induction run generalizing before with
  | nil => exact ⟨before, rfl⟩
  | cons c run ih =>
      obtain ⟨before', hmark⟩ := ih (fun d hd => hrun d (List.mem_cons_of_mem c hd)) c
      exact ⟨before', (mark?_cons (hrun c (List.mem_cons_self ..)) before _).trans hmark⟩

/-- In a string literal between backticks, the next mark stands behind a backslash or ends the
literal. -/
theorem mark?_guarded (s rest : Text) (before : Char) :
    ∃ before' next, mark? before (guarded s ++ '"' :: '`' :: rest) = some (before', next) ∧
      (before' = '\\' ∨ ∃ t, next = '"' :: '`' :: t) := by
  induction s generalizing before with
  | nil => exact ⟨before, '"' :: '`' :: rest, rfl, Or.inr ⟨rest, rfl⟩⟩
  | cons c s ih =>
      rw [guarded_cons, List.append_assoc]
      rcases writtenChar_cases .coffeeScript c with ⟨hwritten, hbare⟩ | ⟨next, run, hwritten, -, hrun⟩
      · obtain ⟨before', next, hnext, hcases⟩ := ih c
        refine ⟨before', next, ?_, hcases⟩
        rw [hwritten, List.singleton_append, mark?_cons (isMark_of_isBare hbare)]
        exact hnext
      · rw [hwritten]
        by_cases hmark : isMark next = true
        · refine ⟨'\\', next :: (run ++ (guarded s ++ '"' :: '`' :: rest)), ?_, Or.inl rfl⟩
          rw [List.cons_append, mark?_cons rfl, List.cons_append, mark?, if_pos hmark]
        · have hplain : ∀ d ∈ run, isMark d = false := fun d hd => isMark_of_isBare (hrun d hd)
          obtain ⟨before₁, hrest⟩ := mark?_run hplain next (guarded s ++ '"' :: '`' :: rest)
          obtain ⟨before', next', hnext, hcases⟩ := ih before₁
          refine ⟨before', next', ?_, hcases⟩
          rw [List.cons_append, mark?_cons rfl, List.cons_append, mark?_cons (by simpa using hmark),
            hrest]
          exact hnext

/-- The first mark opens something: it stands behind a space or a parenthesis, and no string literal
between backticks ends there. -/
def Fresh (s : Text) : Prop :=
  ∀ before before' next, mark? before s = some (before', next) →
    (before' = ' ' ∨ before' = '(') ∧ ∀ t, next ≠ '"' :: '`' :: t

theorem Fresh.nil : Fresh [] := by
  intro before before' next h
  cases h

theorem Fresh.append {s : Text} (h : Fresh s) (run : Text) (hrun : ∀ c ∈ run, isMark c = false) :
    Fresh (run ++ s) := by
  intro before before' next hnext
  obtain ⟨before₁, hrest⟩ := mark?_run hrun before s
  rw [hrest] at hnext
  exact h before₁ before' next hnext

/-- A backtick behind a space or a parenthesis is fresh. -/
theorem fresh_backtick {opens : Char} (hopens : opens = ' ' ∨ opens = '(') (s : Text) :
    Fresh (opens :: '`' :: s) := by
  intro before before' next h
  have hplain : isMark opens = false := by rcases hopens with rfl | rfl <;> rfl
  have hfirst : mark? opens ('`' :: s) = some (opens, '`' :: s) := rfl
  rw [mark?_cons hplain, hfirst] at h
  obtain ⟨rfl, rfl⟩ := Prod.mk.inj (Option.some.inj h)
  refine ⟨hopens, ?_⟩
  intro t ht
  exact absurd (List.cons.inj ht).1 (by decide)

/-- So is the expression for the empty text behind a space. -/
theorem fresh_emptyText (s : Text) : Fresh (' ' :: (emptyText ++ s)) := by
  intro before before' next h
  rw [mark?_cons rfl] at h
  have hfirst : mark? ' ' (emptyText ++ s) = some (' ', '"' :: '"' :: s) := rfl
  rw [hfirst] at h
  obtain ⟨rfl, rfl⟩ := Prod.mk.inj (Option.some.inj h)
  refine ⟨Or.inl rfl, ?_⟩
  intro t ht
  exact absurd (List.cons.inj (List.cons.inj ht).2).1 (by decide)

/-- **No literal text is taken for an element.**  Behind the backtick where the snippet would end, the
next mark stands behind a backslash or ends the literal; behind an element neither is so. -/
theorem literal_append_ne {text snippet s t : Text} (hsnippet : '`' ∉ snippet)
    (hs : s.head? ≠ some '.') (ht : Fresh t) :
    literal .coffeeScript text ++ s ≠ '`' :: (snippet ++ '`' :: (".innerHTML".toList ++ t)) := by
  intro h
  have hguarded : '"' :: (guarded text ++ '"' :: '`' :: s) =
      snippet ++ '`' :: (".innerHTML".toList ++ t) := by
    rw [literal_coffeeScript] at h
    simpa using (List.cons.inj h).2
  by_cases hmem : '`' ∈ text
  · -- the snippet would end at the first backtick of the text, where the next mark is still inside
    obtain ⟨before, after, rfl, hbefore⟩ := List.eq_append_cons_of_mem hmem
    have hbacktick : writtenChar .coffeeScript '`' = ['\\', '`'] := rfl
    have hrun : '`' ∉ '"' :: (guarded before ++ ['\\']) := by
      simpa using backtick_not_mem_guarded hbefore
    have hsplit : '"' :: (guarded (before ++ '`' :: after) ++ '"' :: '`' :: s) =
        ('"' :: (guarded before ++ ['\\'])) ++ '`' :: (guarded after ++ '"' :: '`' :: s) := by
      rw [guarded_append, guarded_cons, hbacktick]
      simp
    rw [hsplit] at hguarded
    obtain ⟨-, hrest⟩ := Text.append_cons_inj hrun hsnippet hguarded
    obtain ⟨before', next, hmark, hcases⟩ := mark?_guarded after s ' '
    rw [hrest] at hmark
    have hfresh := ht.append ".innerHTML".toList (by simp [isMark])
    obtain ⟨hopens, hclosing⟩ := hfresh ' ' before' next hmark
    rcases hcases with rfl | ⟨u, rfl⟩
    · exact absurd hopens (by decide)
    · exact hclosing u rfl
  · -- the snippet would end with the literal, where no member is read
    have hrun : '`' ∉ '"' :: (guarded text ++ ['"']) := by
      simpa using backtick_not_mem_guarded hmem
    have hsplit : '"' :: (guarded text ++ '"' :: '`' :: s) =
        ('"' :: (guarded text ++ ['"'])) ++ '`' :: s := by simp
    rw [hsplit] at hguarded
    obtain ⟨-, rfl⟩ := Text.append_cons_inj hrun hsnippet hguarded
    exact hs rfl

end Host

/-! ### The code of parts -/

namespace Insertion

/-- The code before the snippet of an insertion. -/
def lead : Insertion → Text
  | escaped => "E(".toList
  | element => []
  | elements => "E.cat(".toList

/-- The code behind the snippet of an insertion. -/
def tail : Insertion → Text
  | escaped => [')']
  | element => ".innerHTML".toList
  | elements => [')']

theorem emit_tree (kind : Insertion) (snippet : Text) :
    (kind.tree snippet).emit .coffeeScript = kind.lead ++ '`' :: (snippet ++ '`' :: kind.tail) := by
  have hassoc : ∀ lead tail : Text, lead ++ '`' :: (snippet ++ ['`']) ++ tail =
      lead ++ '`' :: (snippet ++ '`' :: tail) := by
    intro lead tail
    simp
  cases kind with
  | escaped =>
      rw [tree, Tree.emit]
      exact hassoc (lead escaped) (tail escaped)
  | element =>
      rw [tree, Tree.emit]
      exact hassoc (lead element) (tail element)
  | elements =>
      rw [tree, Tree.emit]
      exact hassoc (lead elements) (tail elements)

theorem lead_injective : Function.Injective lead := by
  intro kind kind' h
  cases kind <;> cases kind' <;> first | rfl | exact absurd h (by decide)

theorem backtick_not_mem_lead (kind : Insertion) : '`' ∉ kind.lead := by
  cases kind <;> decide

end Insertion

theorem Snippet.backtick_not_mem (snippet : Snippet) : '`' ∉ snippet.text :=
  fun hmem => absurd (snippet.plain '`' hmem) (by decide)

namespace Tree

/-- The parts that a template may mean: literal texts, insertions, and choices between templates. -/
inductive Parts : List Tree → Prop
  | nil : Parts []
  | literal (text : Text) {more : List Tree} (hmore : Parts more) : Parts (literal text :: more)
  | insertion (kind : Insertion) (snippet : Snippet) {more : List Tree} (hmore : Parts more) :
      Parts (kind.tree snippet.text :: more)
  | choice (condition : Snippet) {yes no more : List Tree} (hyes : Parts yes) (hno : Parts no)
      (hmore : Parts more) : Parts (choice condition.text (ofParts yes) (ofParts no) :: more)

theorem Parts.more {part : Tree} {more : List Tree} (h : Parts (part :: more)) : Parts more := by
  cases h <;> assumption

/-- The code of some parts that others stand before. -/
def codeAfter : List Tree → Text
  | [] => []
  | part :: more => " + ".toList ++ (part.emit .coffeeScript ++ codeAfter more)

theorem emit_ofParts_cons (part : Tree) (more : List Tree) :
    (ofParts (part :: more)).emit .coffeeScript = part.emit .coffeeScript ++ codeAfter more := by
  have hconcat : ∀ (code : Text) (more : List Tree),
      Host.concat (code :: emitParts .coffeeScript more) = code ++ codeAfter more := by
    intro code more
    induction more generalizing code with
    | nil => simp [Host.concat, emitParts, codeAfter, List.intercalate]
    | cons next more ih =>
        have hnext := ih (next.emit .coffeeScript)
        simp only [Host.concat, emitParts, codeAfter] at hnext ⊢
        rw [List.intercalate_cons_cons, hnext]
        simp
  simp [ofParts, emit, emitParts, hconcat]

theorem emit_choice (condition : Text) (yes no : Tree) :
    (choice condition yes no).emit .coffeeScript =
      "(if ".toList ++ '`' :: (condition ++ '`' :: (" then ".toList ++ (yes.emit .coffeeScript ++
        (" else ".toList ++ (no.emit .coffeeScript ++ [')']))))) := by
  have hassoc : ∀ a b c s t u : Text, a ++ '`' :: (s ++ ['`']) ++ b ++ t ++ c ++ u ++ [')'] =
      a ++ '`' :: (s ++ '`' :: (b ++ (t ++ (c ++ (u ++ [')']))))) := by
    intro a b c s t u
    simp
  have hemit : (choice condition yes no).emit .coffeeScript =
      Host.choose .coffeeScript (Host.embed .coffeeScript condition) (yes.emit .coffeeScript)
        (no.emit .coffeeScript) := by
    rw [emit]
  exact hemit.trans (hassoc _ _ _ _ _ _)

/-! ### What may stand behind a part -/

/-- What may stand behind the last part of a template: nothing, the end of a choice, or its second
branch.  Its marks are fresh. -/
structure Follows (s : Text) : Prop where
  ends : s = [] ∨ (∃ t, s = ')' :: t) ∨ ∃ t, s = " else ".toList ++ t
  fresh : Host.Fresh s

theorem Follows.nil : Follows [] := ⟨Or.inl rfl, Host.Fresh.nil⟩

theorem Follows.ne_plus {s : Text} (h : Follows s) (t : Text) : s ≠ " + ".toList ++ t := by
  rcases h.ends with rfl | ⟨u, rfl⟩ | ⟨u, rfl⟩
  · intro heq
    cases heq
  · intro heq
    exact absurd (List.cons.inj heq).1 (by decide)
  · intro heq
    exact absurd (List.cons.inj (List.cons.inj heq).2).1 (by decide)

theorem fresh_emit {part : Tree} {more : List Tree} (h : Parts (part :: more)) (s : Text) :
    Host.Fresh (' ' :: (part.emit .coffeeScript ++ s)) := by
  cases h with
  | literal text hmore =>
      have hcode : (literal text).emit .coffeeScript = Host.literal .coffeeScript text := rfl
      rw [hcode, Host.literal_coffeeScript]
      exact Host.fresh_backtick (Or.inl rfl) _
  | insertion kind snippet hmore =>
      rw [Insertion.emit_tree]
      cases kind with
      | escaped =>
          exact (Host.fresh_backtick (Or.inr rfl) _).append [' ', 'E'] (by simp [Host.isMark])
      | element => exact Host.fresh_backtick (Or.inl rfl) _
      | elements =>
          exact (Host.fresh_backtick (Or.inr rfl) _).append " E.cat".toList (by simp [Host.isMark])
  | choice condition hyes hno hmore =>
      rw [emit_choice]
      exact (Host.fresh_backtick (Or.inl rfl) _).append " (if".toList (by simp [Host.isMark])

theorem fresh_ofParts {parts : List Tree} (h : Parts parts) (s : Text) :
    Host.Fresh (' ' :: ((ofParts parts).emit .coffeeScript ++ s)) := by
  cases parts with
  | nil => exact Host.fresh_emptyText s
  | cons part more =>
      rw [emit_ofParts_cons, List.append_assoc]
      exact fresh_emit h _

/-- Behind a part, the marks are fresh. -/
theorem fresh_codeAfter {parts : List Tree} (h : Parts parts) {s : Text} (hs : Follows s) :
    Host.Fresh (codeAfter parts ++ s) := by
  cases parts with
  | nil => exact hs.fresh
  | cons part more =>
      have hsplit : codeAfter (part :: more) ++ s =
          [' ', '+'] ++ ' ' :: (part.emit .coffeeScript ++ (codeAfter more ++ s)) := by
        rw [codeAfter, List.append_assoc, List.append_assoc]
        rfl
      rw [hsplit]
      exact (fresh_emit h _).append [' ', '+'] (by simp [Host.isMark])

/-- Behind a part, no member is read. -/
theorem head?_codeAfter (parts : List Tree) {s : Text} (hs : Follows s) :
    (codeAfter parts ++ s).head? ≠ some '.' := by
  cases parts with
  | nil =>
      intro h
      rcases hs.ends with rfl | ⟨t, rfl⟩ | ⟨t, rfl⟩
      · cases h
      · exact absurd (Option.some.inj h) (by decide)
      · exact absurd (Option.some.inj h) (by decide)
  | cons part more =>
      intro h
      exact absurd (Option.some.inj h) (by decide)

/-- Behind the first branch of a choice stands the second. -/
theorem follows_else {no : List Tree} (hno : Parts no) (s : Text) :
    Follows (" else ".toList ++ ((ofParts no).emit .coffeeScript ++ s)) :=
  ⟨Or.inr (Or.inr ⟨_, rfl⟩), (fresh_ofParts hno s).append " else".toList (by simp [Host.isMark])⟩

/-- Behind the second branch the choice ends. -/
theorem follows_end {parts : List Tree} (h : Parts parts) {s : Text} (hs : Follows s) :
    Follows (')' :: (codeAfter parts ++ s)) :=
  ⟨Or.inr (Or.inl ⟨_, rfl⟩), (fresh_codeAfter h hs).append [')'] (by simp [Host.isMark])⟩

/-! ### Reading parts back -/

/-- Some parts are known from their code, whatever follows. -/
def ReadBack (parts : List Tree) : Prop :=
  ∀ {parts' : List Tree} {s s' : Text}, Parts parts' → Follows s → Follows s' →
    codeAfter parts ++ s = codeAfter parts' ++ s' → parts = parts' ∧ s = s'

/-- The code of a part is not taken for the empty text. -/
theorem emit_append_ne {part : Tree} {more : List Tree} (h : Parts (part :: more)) (s t : Text) :
    part.emit .coffeeScript ++ s ≠ '"' :: t := by
  intro heq
  cases h with
  | literal text hmore =>
      have hcode : (literal text).emit .coffeeScript = Host.literal .coffeeScript text := rfl
      rw [hcode, Host.literal_coffeeScript] at heq
      exact absurd (List.cons.inj heq).1 (by decide)
  | insertion kind snippet hmore =>
      rw [Insertion.emit_tree] at heq
      cases kind <;> exact absurd (List.cons.inj heq).1 (by decide)
  | choice condition hyes hno hmore =>
      rw [emit_choice] at heq
      exact absurd (List.cons.inj heq).1 (by decide)

/-- A branch is known from its code, if its parts are. -/
theorem ReadBack.ofParts {parts parts' : List Tree} (hread : ReadBack parts) (h : Parts parts)
    (h' : Parts parts') {s s' : Text} (hs : Follows s) (hs' : Follows s')
    (heq : (Tree.ofParts parts).emit .coffeeScript ++ s =
      (Tree.ofParts parts').emit .coffeeScript ++ s') : parts = parts' ∧ s = s' := by
  cases parts with
  | nil =>
      cases parts' with
      | nil => exact ⟨rfl, List.append_cancel_left heq⟩
      | cons part' more' =>
          rw [emit_ofParts_cons, List.append_assoc] at heq
          exact absurd heq.symm (emit_append_ne h' _ _)
  | cons part more =>
      cases parts' with
      | nil =>
          rw [emit_ofParts_cons, List.append_assoc] at heq
          exact absurd heq (emit_append_ne h _ _)
      | cons part' more' =>
          rw [emit_ofParts_cons, emit_ofParts_cons] at heq
          refine hread h' hs hs' ?_
          rw [List.append_assoc, List.append_assoc] at heq
          simp only [codeAfter, List.append_assoc, heq]

section Part

variable {more more' : List Tree} {s s' : Text} (hs : Follows s) (hs' : Follows s')
include hs hs'

theorem literal_inj {text : Text} {part' : Tree} (h' : Parts (part' :: more'))
    (heq : (literal text).emit .coffeeScript ++ (codeAfter more ++ s) =
      part'.emit .coffeeScript ++ (codeAfter more' ++ s')) :
    literal text = part' ∧ codeAfter more ++ s = codeAfter more' ++ s' := by
  have hcode : ∀ text, (literal text).emit .coffeeScript = Host.literal .coffeeScript text :=
    fun _ => rfl
  rw [hcode] at heq
  cases h' with
  | literal text' hmore' =>
      rw [hcode, Host.literal_coffeeScript, Host.literal_coffeeScript] at heq
      have hguarded : Host.guarded text ++ '"' :: ('`' :: (codeAfter more ++ s)) =
          Host.guarded text' ++ '"' :: ('`' :: (codeAfter more' ++ s')) := by simpa using heq
      obtain ⟨rfl, hrest⟩ := Host.guarded_append_inj hguarded
      exact ⟨rfl, (List.cons.inj hrest).2⟩
  | insertion kind snippet hmore' =>
      rw [Insertion.emit_tree] at heq
      cases kind with
      | escaped =>
          rw [Host.literal_coffeeScript] at heq
          exact absurd (List.cons.inj heq).1 (by decide)
      | elements =>
          rw [Host.literal_coffeeScript] at heq
          exact absurd (List.cons.inj heq).1 (by decide)
      | element =>
          simp only [Insertion.lead, List.nil_append, List.cons_append, List.append_assoc] at heq
          exact absurd heq (Host.literal_append_ne snippet.backtick_not_mem
            (head?_codeAfter more hs) (fresh_codeAfter hmore' hs'))
  | choice condition hyes hno hmore' =>
      rw [Host.literal_coffeeScript, emit_choice] at heq
      exact absurd (List.cons.inj heq).1 (by decide)

theorem insertion_inj (hmore : Parts more) {kind : Insertion} {snippet : Snippet} {part' : Tree}
    (h' : Parts (part' :: more'))
    (heq : (kind.tree snippet.text).emit .coffeeScript ++ (codeAfter more ++ s) =
      part'.emit .coffeeScript ++ (codeAfter more' ++ s')) :
    kind.tree snippet.text = part' ∧ codeAfter more ++ s = codeAfter more' ++ s' := by
  cases h' with
  | literal text' hmore' =>
      obtain ⟨hpart, hrest⟩ := literal_inj hs' hs (.insertion kind snippet hmore) heq.symm
      exact ⟨hpart.symm, hrest.symm⟩
  | insertion kind' snippet' hmore' =>
      rw [Insertion.emit_tree, Insertion.emit_tree] at heq
      simp only [List.append_assoc, List.cons_append] at heq
      obtain ⟨hlead, hbody⟩ := Text.append_cons_inj kind.backtick_not_mem_lead
        kind'.backtick_not_mem_lead heq
      obtain rfl := Insertion.lead_injective hlead
      obtain ⟨hsnippet, hrest⟩ := Text.append_cons_inj snippet.backtick_not_mem
        snippet'.backtick_not_mem hbody
      exact ⟨by rw [hsnippet], List.append_cancel_left hrest⟩
  | choice condition hyes hno hmore' =>
      rw [Insertion.emit_tree, emit_choice] at heq
      simp only [List.append_assoc, List.cons_append] at heq
      obtain ⟨hlead, -⟩ := Text.append_cons_inj kind.backtick_not_mem_lead (by decide) heq
      cases kind <;> exact absurd hlead (by decide)

theorem choice_inj (hmore : Parts more) {condition : Snippet} {yes no : List Tree}
    (hyes : Parts yes) (hno : Parts no) (hreadYes : ReadBack yes) (hreadNo : ReadBack no)
    {part' : Tree} (h' : Parts (part' :: more'))
    (heq : (choice condition.text (Tree.ofParts yes) (Tree.ofParts no)).emit .coffeeScript ++
        (codeAfter more ++ s) =
      part'.emit .coffeeScript ++ (codeAfter more' ++ s')) :
    choice condition.text (Tree.ofParts yes) (Tree.ofParts no) = part' ∧
      codeAfter more ++ s = codeAfter more' ++ s' := by
  cases h' with
  | literal text' hmore' =>
      obtain ⟨hpart, hrest⟩ := literal_inj hs' hs (.choice condition hyes hno hmore) heq.symm
      exact ⟨hpart.symm, hrest.symm⟩
  | insertion kind snippet hmore' =>
      obtain ⟨hpart, hrest⟩ := insertion_inj hs' hs hmore' (.choice condition hyes hno hmore)
        heq.symm
      exact ⟨hpart.symm, hrest.symm⟩
  | choice condition' hyes' hno' hmore' =>
      rw [emit_choice, emit_choice] at heq
      simp only [List.append_assoc, List.cons_append] at heq
      have hbody := (List.cons.inj (List.append_cancel_left heq)).2
      obtain ⟨hcondition, hbranches⟩ := Text.append_cons_inj condition.backtick_not_mem
        condition'.backtick_not_mem hbody
      obtain ⟨rfl, helse⟩ := hreadYes.ofParts hyes hyes' (follows_else hno _) (follows_else hno' _)
        (List.append_cancel_left (List.cons.inj hbranches).2)
      obtain ⟨rfl, hend⟩ := hreadNo.ofParts hno hno' (follows_end hmore hs) (follows_end hmore' hs')
        (List.append_cancel_left helse)
      exact ⟨by rw [hcondition], (List.cons.inj hend).2⟩

end Part

/-- Only no parts have no code. -/
theorem eq_nil_of_codeAfter {parts : List Tree} {s s' : Text} (hs : Follows s)
    (heq : s = codeAfter parts ++ s') : parts = [] := by
  cases parts with
  | nil => rfl
  | cons part more =>
      rw [codeAfter, List.append_assoc] at heq
      exact absurd heq (hs.ne_plus _)

/-- A part and what stands behind it are known, if they are known from their codes. -/
theorem readBack_cons {part : Tree} {more : List Tree} (hread : ReadBack more)
    (hpart : ∀ {part' : Tree} {more' : List Tree} {s s' : Text}, Parts (part' :: more') →
      Follows s → Follows s' →
      part.emit .coffeeScript ++ (codeAfter more ++ s) =
        part'.emit .coffeeScript ++ (codeAfter more' ++ s') →
      part = part' ∧ codeAfter more ++ s = codeAfter more' ++ s') :
    ReadBack (part :: more) := by
  intro parts' s s' h' hs hs' heq
  cases parts' with
  | nil => exact absurd (eq_nil_of_codeAfter hs' heq.symm) (List.cons_ne_nil _ _)
  | cons part' more' =>
      simp only [codeAfter, List.append_assoc] at heq
      obtain ⟨rfl, hrest⟩ := hpart h' hs hs' (List.append_cancel_left heq)
      obtain ⟨rfl, hs⟩ := hread h'.more hs hs' hrest
      exact ⟨rfl, hs⟩

/-- **Parts are known from their code**, whatever follows. -/
theorem codeAfter_append_inj {parts : List Tree} (h : Parts parts) : ReadBack parts := by
  induction h with
  | nil =>
      intro parts' s s' h' hs hs' heq
      obtain rfl := eq_nil_of_codeAfter hs heq
      exact ⟨rfl, heq⟩
  | literal text hmore ih =>
      exact readBack_cons ih (fun h' hs hs' => literal_inj hs hs' h')
  | insertion kind snippet hmore ih =>
      exact readBack_cons ih (fun h' hs hs' => insertion_inj hs hs' hmore h')
  | choice condition hyes hno hmore ihYes ihNo ihMore =>
      exact readBack_cons ihMore
        (fun h' hs hs' => choice_inj hs hs' hmore hyes hno ihYes ihNo h')

end Tree

/-! ### Templates -/

namespace Template

/-- The parts that a source writes are parts that a template may mean. -/
theorem parts_parts (source : Source) : Tree.Parts source.parts := by
  induction source with
  | nil => exact .nil
  | literal units nonempty more ih => exact .literal _ ih
  | insertion kind snippet more ih => exact .insertion kind snippet ih
  | choice condition more ih => exact .choice condition .nil .nil ih
  | choiceThen condition yes more ihYes ihMore => exact .choice condition ihYes .nil ihMore
  | choiceThenElse condition yes no more ihYes ihNo ihMore =>
      exact .choice condition ihYes ihNo ihMore

/-- What a template means is made of parts. -/
theorem exists_parts_of_parse {residue : Residue} {template : Text} {tree : Tree}
    (h : parse residue template = .ok tree) :
    ∃ parts, Tree.Parts parts ∧ tree = Tree.ofParts parts := by
  obtain ⟨source, -, rfl, -⟩ := parseWithin_eq_ok_iff.1 h
  exact ⟨source.parts, parts_parts source, rfl⟩

/-- **Templates with the same expression have the same meaning**, wherever they stand. -/
theorem parse_emit_injective {residue residue' : Residue} {template template' : Text}
    {tree tree' : Tree} (h : parse residue template = .ok tree)
    (h' : parse residue' template' = .ok tree')
    (heq : tree.emit .coffeeScript = tree'.emit .coffeeScript) : tree = tree' := by
  obtain ⟨parts, hparts, rfl⟩ := exists_parts_of_parse h
  obtain ⟨parts', hparts', rfl⟩ := exists_parts_of_parse h'
  have hcode : (Tree.ofParts parts).emit .coffeeScript ++ [] =
      (Tree.ofParts parts').emit .coffeeScript ++ [] := by rw [heq]
  have hread : Tree.ReadBack parts := Tree.codeAfter_append_inj hparts
  obtain ⟨rfl, -⟩ := hread.ofParts hparts hparts' .nil .nil hcode
  rfl

/-- A choice without branches has the expression of one with two empty branches.  The literal text
before it looks like the end of a snippet; the first template stands at the top level, the second
inside an element. -/
theorem parse_emit_injective_branches :
    ∃ tree, parse .topLevel "`.innerHTML?{c}".toList = .ok tree ∧
      parse (Residue.topLevel.advance "<p>".toList) "`.innerHTML?{c}{}{}".toList = .ok tree := by
  have h : parse .topLevel "`.innerHTML?{c}".toList =
      .ok (.sequence [.literal "`.innerHTML".toList, .choice ['c'] .empty .empty]) := by cbv
  have h' : parse (Residue.topLevel.advance "<p>".toList) "`.innerHTML?{c}{}{}".toList =
      .ok (.sequence [.literal "`.innerHTML".toList, .choice ['c'] .empty .empty]) := by cbv
  have htree := parse_emit_injective h h' rfl
  exact ⟨_, h, h'.trans (congrArg Except.ok htree.symm)⟩

end Template

end SafeTemplate
