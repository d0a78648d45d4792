/-
**A template inside of a query.**

The helper `html` takes a template as a text, and a query gives a text between quotes.  So a template
can stand right in the block that compiles it.  Two readers go over it before it comes to the helper:
the one that looks for the end of the block, and the one that looks for the closing quote.  A backslash
before each apostrophe and each backslash stops the second one; a backslash before each `>` stops the
first one, because then no `%` stands before a `>`.  The reader of the query takes all of them away
again, since none of the three characters means anything else behind a backslash.

Main definitions:

* `Query.inlineChar`, `Query.inline` — how a text is written between apostrophes;
* `Project.inlineBody` — the body of a block that calls a helper with a text.

Main results:

* `Query.body_inline` — between apostrophes, what is written inline denotes the text;
* `Query.closing_not_infix_inline` — it does not end a block;
* `Project.insert_inlineBody` — such a block inserts what the helper gives for the text;
* `Project.render_inline` — **every template can be written inline**: the block is replaced by what
  the template compiles to, or fails for what the template is rejected for.
-/

import SafeTemplate.Proofs.QueryGrammar
import SafeTemplate.Proofs.Substitution

set_option autoImplicit false

namespace SafeTemplate

/-! ### Marks in a text that is put together -/

/-- A mark of two characters occurs in neither of two texts nor at the seam between them. -/
theorem Text.not_infix_append {first second : Char} {s t : Text} (hs : ¬[first, second] <:+: s)
    (ht : ¬[first, second] <:+: t) (hseam : t.head? ≠ some second) :
    ¬[first, second] <:+: s ++ t := by
  induction s with
  | nil => exact ht
  | cons c s ih =>
      have hrest : ¬[first, second] <:+: s := fun h => hs (h.trans (List.suffix_cons c s).isInfix)
      intro h
      rcases List.infix_cons_iff.1 h with hprefix | hinside
      · exact Text.not_prefix_of_seam hs hseam hprefix
      · exact ih hrest hinside

namespace Query

open Block (closing)

/-! ### Writing a text inline -/

/-- How a character is written between apostrophes in a query that stands in a block. -/
def inlineChar (c : Char) : Text :=
  if c = '\'' ∨ c = '\\' ∨ c = '>' then ['\\', c] else [c]

/-- How a text is written between apostrophes in a query that stands in a block. -/
def inline (s : Text) : Text :=
  s.flatMap inlineChar

theorem inline_cons (c : Char) (s : Text) : inline (c :: s) = inlineChar c ++ inline s :=
  List.flatMap_cons

/-- Between apostrophes, what is written inline denotes the text. -/
theorem body_inline (s : Text) : Body .free '\'' s (inline s) := by
  induction s with
  | nil => exact .nil
  | cons c s ih =>
      rw [inline_cons, inlineChar]
      split
      · next hguarded =>
          have hescaped : escaped c = c := by
            rcases hguarded with rfl | rfl | rfl <;> rfl
          have hcons : Body .free '\'' (escaped c :: s) ('\\' :: c :: inline s) := .escape trivial ih
          rwa [hescaped] at hcons
      · next hplain =>
          rw [not_or, not_or] at hplain
          exact ih.plain hplain.1 hplain.2.1

/-- No `>` comes without a backslash before it. -/
theorem head?_inline_ne (s : Text) : (inline s).head? ≠ some '>' := by
  cases s with
  | nil => simp [inline]
  | cons c s =>
      rw [inline_cons, inlineChar]
      split
      · simp
      · next hplain =>
          rw [not_or, not_or] at hplain
          simpa using hplain.2.2

/-- What is written inline does not end a block. -/
theorem closing_not_infix_inline (s : Text) : ¬closing <:+: inline s := by
  induction s with
  | nil => decide
  | cons c s ih =>
      rw [inline_cons]
      refine Text.not_infix_append ?_ ih (head?_inline_ne s)
      intro hmark
      rw [inlineChar] at hmark
      split at hmark
      · have hwhole : closing = ['\\', c] := hmark.eq_of_length rfl
        exact absurd (List.cons.inj hwhole).1 (by decide)
      · exact absurd hmark.length_le (Nat.not_succ_le_self 1)

/-! ### Calling a helper with a text -/

/-- A query that calls a helper with a text written inline. -/
theorem parse_call_inline {helper : Text} (hhelper : IsName helper) (hkeyword : helper ∉ keywords)
    (s : Text) :
    parse (' ' :: (helper ++ ("('".toList ++ (inline s ++ "') ".toList)))) =
      .ok (.call helper [.constant (.string s)]) := by
  have hspace : IsBlank [' '] := List.forall_mem_singleton.2 rfl
  have hnone : IsBlank [] := fun c hc => absurd hc List.not_mem_nil
  let token := '\'' :: (inline s ++ ['\''])
  have hquoted : Quoted .free s token := .mk rfl (body_inline s)
  have hcall : Written .free (.call helper [.constant (.string s)]) [helper, ['('], token, [')']] :=
    .call hhelper hkeyword [(_, [token])]
      (List.forall_mem_singleton.2 (.constant (.string hquoted)))
  have hspaced := Spaced.cons hspace helper
    (.cons hnone ['('] (.cons hnone token (.cons hnone [')'] .nil)))
  refine parse_eq_ok_iff.2 ⟨_, hcall, _, [' '], ?_, hspaced, hspace⟩
  simp [token]

end Query

namespace Project

open Block (closing)

/-- The body of a block that calls a helper with a text written inline. -/
def inlineBody (helper : Helper) (s : Text) : Text :=
  ' ' :: (helper.name ++ ("('".toList ++ (Query.inline s ++ "') ".toList)))

theorem closing_not_infix_inlineBody (helper : Helper) (s : Text) :
    ¬closing <:+: inlineBody helper s := by
  have hend : ¬closing <:+: Query.inline s ++ "') ".toList :=
    Text.not_infix_append (Query.closing_not_infix_inline s) (by decide) (by decide)
  have hseam : (Query.inline s ++ "') ".toList).head? ≠ some '>' := by
    have hhead := Query.head?_inline_ne s
    cases hinline : Query.inline s with
    | nil => decide
    | cons c s =>
        rw [hinline] at hhead
        exact hhead
  have hstart : inlineBody helper s =
      ' ' :: (helper.name ++ "('".toList) ++ (Query.inline s ++ "') ".toList) := by
    simp [inlineBody]
  rw [hstart]
  exact Text.not_infix_append (by cases helper <;> decide) hend hseam

/-- A block that calls a helper with a text written inline. -/
theorem writable_inline (helper : Helper) (s : Text) :
    Block.Writable ⟨.value, inlineBody helper s⟩ :=
  ⟨List.cons_ne_nil _ _, closing_not_infix_inlineBody helper s, fun hcode => by cases hcode⟩

theorem parse_inlineBody (helper : Helper) (s : Text) :
    Query.parse (inlineBody helper s) = .ok (.call helper.name [.constant (.string s)]) := by
  have hname : Query.IsName helper.name := by
    cases helper <;> exact ⟨⟨_, rfl, rfl⟩, List.all_eq_true.1 rfl⟩
  have hkeyword : helper.name ∉ Query.keywords := by cases helper <;> decide
  exact Query.parse_call_inline hname hkeyword s

/-- **What a block inserts that calls a helper with a text written inline**: what the helper gives for
the text. -/
theorem insert_inlineBody (project : Project) (call : Text → List Json.Value → Attempt Json.Value)
    (helper : Helper) (s : Text) :
    insert (Query.evaluate project.data call) ⟨.value, inlineBody helper s⟩ =
      Json.Value.plain <$> call helper.name [.string s] := by
  rw [insert, valueOf, parse_inlineBody]
  rfl

/-- **Every template can be written inline.**  With a backslash before each apostrophe, each backslash
and each `>`, any text can stand between the apostrophes of `<%= html('') %>`.  The block is replaced
by what the helper makes of exactly this text as a template: an object with the template as its
content, or the rejection of the template. -/
theorem render_inline (project : Project) (disk : Disk) (levels : Nat) (template : Text) :
    project.render disk levels
        ("<%= html('".toList ++ (Query.inline template ++ "') %>".toList)) =
      some ((Template.compileElement project.host template).mapError Fault.rejected) := by
  have hvalue : insert (project.evaluate disk levels) ⟨.value, inlineBody .html template⟩ =
      some ((Template.compileElement project.host template).mapError Fault.rejected) := by
    refine (insert_inlineBody project _ .html template).trans ?_
    rw [callHelper_text, applyHelper, Attempt.map_lift, compileTemplate]
    cases Template.compileElement project.host template with
    | error rejection => rfl
    | ok expression =>
        have hplain : (Json.Value.string expression).plain = expression := by rw [Json.Value.plain]
        exact congrArg (fun s => some (Except.ok s)) hplain
  have hwritten : "<%= html('".toList ++ (Query.inline template ++ "') %>".toList) =
      [] ++ ((Block.mk .value (inlineBody .html template)).written ++ []) := by
    have hstart : "<%= html('".toList =
        Block.opening ++ (Block.Mode.value.sign ++ ' ' :: (Helper.html.name ++ "('".toList)) := rfl
    have hend : "') %>".toList = "') ".toList ++ closing := rfl
    rw [hstart, hend]
    simp only [Block.written, inlineBody, List.append_assoc, List.cons_append, List.nil_append,
      List.append_nil]
  rw [hwritten, project.render_written disk levels (by decide) (writable_inline .html template) [],
    hvalue, render_nil]
  cases Template.compileElement project.host template with
  | error rejection => rfl
  | ok expression => exact congrArg (fun s => some (Except.ok s)) (List.append_nil _)

end Project

end SafeTemplate
