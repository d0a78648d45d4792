/-
**What a source expands to.**

A source is text and blocks in turn.  Expanding it keeps the text, puts the value of a query where
its block stands, and goes on behind the block with what is left of the source, never with what was
put in.  So the expansion of a source is known from its first block: the text before it, what the
block inserts, and the expansion of what follows.

The blocks are given here by how they are written, not by how they are looked for.  A body may hold
anything but the end of a block, so also the start of one, and the character before a mark may be
the one that the mark starts with.

Main definitions: `Block.opening`, `Block.Mode.sign`, `Block.written`.

Main results:

* `Text.not_prefix_of_seam` — no mark of two characters starts before a text that cannot end it;
* `Block.read?_written`, `Block.exists_closing_of_read?` — what is written as a block is read as it,
  and what is read is closed;
* `Block.substitute_append`, `Block.substitute_of_not_closing`, `Block.substitute_written` — the
  expansion of text, of text behind an opening that nothing closes, and of a block;
* `Project.render_expands` — **a source is expanded from left to right, block by block**.
-/

import SafeTemplate.Project.Expansion

set_option autoImplicit false

namespace SafeTemplate

/-! ### Marks at a seam -/

/-- A mark of two characters that does not occur in a text starts nowhere in it, if what follows the
text does not start with the second of them. -/
theorem Text.not_prefix_of_seam {first second c : Char} {s rest : Text}
    (h : ¬[first, second] <:+: c :: s) (hrest : rest.head? ≠ some second) :
    ¬[first, second] <+: c :: (s ++ rest) := by
  intro hprefix
  obtain ⟨rfl, htail⟩ := List.cons_prefix_cons.1 hprefix
  cases s with
  | nil =>
      obtain ⟨t, rfl⟩ := htail
      exact hrest rfl
  | cons d s =>
      obtain ⟨rfl, -⟩ := List.cons_prefix_cons.1 htail
      exact h (List.IsPrefix.isInfix ⟨s, rfl⟩)

theorem Text.after?_eq_none_iff {lead s : Text} : after? lead s = none ↔ ¬lead <+: s := by
  rw [Option.eq_none_iff_forall_ne_some]
  constructor
  · intro h hprefix
    obtain ⟨rest, rfl⟩ := hprefix
    exact h rest (after?_eq_some_iff.2 rfl)
  · intro h rest hrest
    exact h ⟨rest, (after?_eq_some_iff.1 hrest).symm⟩

namespace Block

/-! ### Blocks as they are written -/

/-- The start of a block. -/
def opening : Text := ['<', '%']

/-- The sign behind the start of a block that tells what it inserts. -/
def Mode.sign : Mode → Text
  | value => ['=']
  | escaped => ['-']
  | code => []

/-- How a block is written. -/
def written (block : Block) : Text :=
  opening ++ (block.mode.sign ++ (block.body ++ closing))

/-- A block that can be written: its body is not empty and does not hold the end of a block, and the
body of a block of code does not start with a sign. -/
structure Writable (block : Block) : Prop where
  nonempty : block.body ≠ []
  closes : ¬closing <:+: block.body
  unsigned : block.mode = .code → block.body.head? ≠ some '=' ∧ block.body.head? ≠ some '-'

theorem cut?_closing {body : Text} (h : ¬closing <:+: body) (t : Text) :
    Text.cut? closing (body ++ (closing ++ t)) = some (body, t) := by
  induction body with
  | nil => rfl
  | cons c body ih =>
      have hbody : ¬closing <:+: body := fun hinside =>
        h (hinside.trans (List.suffix_cons c body).isInfix)
      have hstart : Text.after? closing (c :: (body ++ (closing ++ t))) = none :=
        Text.after?_eq_none_iff.2 (Text.not_prefix_of_seam h (by simp [closing]))
      rw [List.cons_append, Text.cut?, hstart, ih hbody]
      rfl

theorem readBody?_closing {body : Text} (hne : body ≠ []) (h : ¬closing <:+: body) (mode : Mode)
    (t : Text) : readBody? mode (body ++ (closing ++ t)) = some (⟨mode, body⟩, t) := by
  obtain ⟨c, body, rfl⟩ := List.exists_cons_of_ne_nil hne
  have hbody : ¬closing <:+: body := fun hinside =>
    h (hinside.trans (List.suffix_cons c body).isInfix)
  rw [readBody?, List.cons_append, body?, cut?_closing hbody]
  rfl

/-- What is written as a block is read as it. -/
theorem read?_written {block : Block} (h : block.Writable) (t : Text) :
    read? (block.written ++ t) = some (block, t) := by
  obtain ⟨mode, body⟩ := block
  have hbody := readBody?_closing h.nonempty h.closes mode t
  have hsplit : written ⟨mode, body⟩ ++ t = opening ++ (mode.sign ++ (body ++ (closing ++ t))) := by
    simp [written]
  rw [hsplit]
  cases mode with
  | value =>
      have hread : read? (opening ++ (Mode.value.sign ++ (body ++ (closing ++ t)))) =
          (readBody? .value (body ++ (closing ++ t))).or
            (readBody? .code ('=' :: (body ++ (closing ++ t)))) := rfl
      rw [hread, hbody]
      rfl
  | escaped =>
      have hread : read? (opening ++ (Mode.escaped.sign ++ (body ++ (closing ++ t)))) =
          (readBody? .escaped (body ++ (closing ++ t))).or
            (readBody? .code ('-' :: (body ++ (closing ++ t)))) := rfl
      rw [hread, hbody]
      rfl
  | code =>
      obtain ⟨c, body, rfl⟩ := List.exists_cons_of_ne_nil h.nonempty
      obtain ⟨hvalue, hescaped⟩ := h.unsigned rfl
      have hread : read? ('<' :: '%' :: c :: (body ++ (closing ++ t))) =
          readBody? .code (c :: (body ++ (closing ++ t))) := by
        refine read?.eq_3 _ ?_ ?_
        · intro s hs
          exact hvalue (congrArg some (List.cons.inj hs).1)
        · intro s hs
          exact hescaped (congrArg some (List.cons.inj hs).1)
      exact hread.trans hbody

/-! ### What is read as a block -/

theorem closing_infix_of_readBody? {mode : Mode} {s rest : Text} {block : Block}
    (h : readBody? mode s = some (block, rest)) : closing <:+: s := by
  cases s with
  | nil => cases h
  | cons c s =>
      simp only [readBody?, body?, Option.map_map, Option.map_eq_some_iff, Prod.exists] at h
      obtain ⟨before, after, hcut, -⟩ := h
      exact ⟨c :: before, after, by simpa using (Text.cut?_eq_some hcut).symm⟩

/-- What is read as a block starts and ends as one. -/
theorem exists_closing_of_read? {s rest : Text} {block : Block} (h : read? s = some (block, rest)) :
    ∃ after, s = opening ++ after ∧ closing <:+: after := by
  unfold read? at h
  split at h
  · next s =>
      refine ⟨'=' :: s, rfl, ?_⟩
      rcases Option.or_eq_some_iff.1 h with hvalue | ⟨-, hcode⟩
      · exact (closing_infix_of_readBody? hvalue).trans (List.suffix_cons '=' s).isInfix
      · exact closing_infix_of_readBody? hcode
  · next s =>
      refine ⟨'-' :: s, rfl, ?_⟩
      rcases Option.or_eq_some_iff.1 h with hescaped | ⟨-, hcode⟩
      · exact (closing_infix_of_readBody? hescaped).trans (List.suffix_cons '-' s).isInfix
      · exact closing_infix_of_readBody? hcode
  · next s _ _ => exact ⟨s, rfl, closing_infix_of_readBody? h⟩
  · cases h

theorem read?_of_not_opening {s : Text} (h : ¬opening <+: s) : read? s = none := by
  refine Option.eq_none_iff_forall_ne_some.2 ?_
  rintro ⟨block, rest⟩ hread
  obtain ⟨after, rfl, -⟩ := exists_closing_of_read? hread
  exact h (List.prefix_append opening after)

/-! ### Expansion -/

section Expansion

variable {m : Type → Type} [Monad m] [LawfulMonad m] {insert : Block → m Text}

/-- Text without the start of a block stands for itself, whatever follows. -/
theorem substitute_append {s rest : Text} (h : ¬opening <:+: s) (hrest : rest.head? ≠ some '%') :
    substitute insert (s ++ rest) = (s ++ ·) <$> substitute insert rest := by
  induction s with
  | nil => simp
  | cons c s ih =>
      have hs : ¬opening <:+: s := fun hinside => h (hinside.trans (List.suffix_cons c s).isInfix)
      have hnone := read?_of_not_opening (Text.not_prefix_of_seam h hrest)
      rw [List.cons_append, substitute_cons hnone, ih hs]
      simp

/-- Text in which nothing closes a block stands for itself. -/
theorem substitute_of_not_closing {s : Text}
    (h : ∀ after, opening ++ after <:+ s → ¬closing <:+: after) :
    substitute insert s = pure s := by
  induction s with
  | nil => rw [substitute]
  | cons c s ih =>
      have hnone : read? (c :: s) = none := by
        refine Option.eq_none_iff_forall_ne_some.2 ?_
        rintro ⟨block, rest⟩ hread
        obtain ⟨after, hsplit, hclosing⟩ := exists_closing_of_read? hread
        exact h after (hsplit ▸ List.suffix_rfl) hclosing
      have hs : substitute insert s = pure s :=
        ih fun after hsuffix => h after (hsuffix.trans (List.suffix_cons c s))
      rw [substitute_cons hnone, hs, pure_bind]

/-- An opening that nothing closes stands for itself, as does the text around it. -/
theorem substitute_unclosed {s after : Text} (h : ¬opening <:+: s) (hafter : ¬closing <:+: after) :
    substitute insert (s ++ (opening ++ after)) = pure (s ++ (opening ++ after)) := by
  have hrest : substitute insert (opening ++ after) = pure (opening ++ after) := by
    refine substitute_of_not_closing fun later hsuffix hclosing => ?_
    -- a later opening stands behind the first one
    have hlater : later <:+ after := by
      refine List.suffix_of_suffix_length_le ((List.suffix_append opening later).trans hsuffix)
        (List.suffix_append opening after) ?_
      have hlength := hsuffix.length_le
      simp only [List.length_append] at hlength
      omega
    exact hafter (hclosing.trans hlater.isInfix)
  rw [substitute_append h (by simp [opening]), hrest, map_pure]

/-- **A source is expanded block by block**: the text before the first block, what the block
inserts, and the expansion of what follows. -/
theorem substitute_written {s : Text} (h : ¬opening <:+: s) {block : Block} (hblock : block.Writable)
    (t : Text) :
    substitute insert (s ++ (block.written ++ t)) = do
      let text ← insert block
      let more ← substitute insert t
      return s ++ text ++ more := by
  rw [substitute_append h (by simp [written, opening]), substitute_of_read? (read?_written hblock t)]
  simp

end Expansion

end Block

namespace Project

open Block (opening closing)

/-- The first block of a source is replaced by what it inserts, and what follows is expanded by
itself. -/
theorem render_written (project : Project) (disk : Disk) (levels : Nat) {s : Text}
    (h : ¬opening <:+: s) {block : Block} (hblock : block.Writable) (t : Text) :
    project.render disk levels (s ++ (block.written ++ t)) = do
      let text ← insert (project.evaluate disk levels) block
      let more ← project.render disk levels t
      return s ++ text ++ more := by
  rw [render_eq, render_eq]
  exact Block.substitute_written h hblock t

theorem render_nil (project : Project) (disk : Disk) (levels : Nat) :
    project.render disk levels [] = some (.ok []) := by
  rw [render_eq, Block.substitute]
  rfl

/-- **A source is expanded from left to right, block by block.**  Text stands for itself, and so does
all of a source whose first opening is not closed.  The first block is replaced by what it inserts:
the value of its query as plain text, as it is or with its markup escaped.  What follows is expanded
by itself, so nothing that was inserted is looked at again; and the first block that fails makes the
source fail, as a block of code does always. -/
theorem render_expands (project : Project) (disk : Disk) (levels : Nat) (s : Text)
    (h : ¬opening <:+: s) :
    project.render disk levels s = some (.ok s) ∧
    (∀ after, ¬closing <:+: after →
      project.render disk levels (s ++ (opening ++ after)) =
        some (.ok (s ++ (opening ++ after)))) ∧
    (∀ body t, body ≠ [] → ¬closing <:+: body →
      project.render disk levels (s ++ ("<%=".toList ++ (body ++ ("%>".toList ++ t)))) = (do
        let value ← valueOf (project.evaluate disk levels) body
        let more ← project.render disk levels t
        return s ++ value.plain ++ more) ∧
      project.render disk levels (s ++ ("<%-".toList ++ (body ++ ("%>".toList ++ t)))) = (do
        let value ← valueOf (project.evaluate disk levels) body
        let more ← project.render disk levels t
        return s ++ Text.escapeHtml value.plain ++ more) ∧
      (body.head? ≠ some '=' → body.head? ≠ some '-' →
        project.render disk levels (s ++ ("<%".toList ++ (body ++ ("%>".toList ++ t)))) =
          some (.error (.codeBlock body)))) := by
  refine ⟨?_, ?_, ?_⟩
  · have hplain : project.render disk levels (s ++ []) =
        (s ++ ·) <$> project.render disk levels [] := by
      rw [render_eq, render_eq]
      exact Block.substitute_append h (by simp)
    rw [List.append_nil, render_nil] at hplain
    rw [hplain]
    exact congrArg (fun t => some (Except.ok t)) (List.append_nil s)
  · intro after hafter
    rw [render_eq]
    exact Block.substitute_unclosed h hafter
  · intro body t hne hbody
    have hwritten : ∀ mode : Block.Mode, (Block.mk mode body).written ++ t =
        opening ++ mode.sign ++ (body ++ (closing ++ t)) := by
      intro mode
      simp [Block.written]
    refine ⟨?_, ?_, ?_⟩
    · have hblock : Block.Writable ⟨.value, body⟩ := ⟨hne, hbody, fun hcode => by cases hcode⟩
      have hrender := project.render_written disk levels h hblock t
      rw [hwritten, insert, bind_map_left] at hrender
      exact hrender
    · have hblock : Block.Writable ⟨.escaped, body⟩ := ⟨hne, hbody, fun hcode => by cases hcode⟩
      have hrender := project.render_written disk levels h hblock t
      rw [hwritten, insert, bind_map_left] at hrender
      exact hrender
    · intro hvalue hescaped
      have hblock : Block.Writable ⟨.code, body⟩ := ⟨hne, hbody, fun _ => ⟨hvalue, hescaped⟩⟩
      have hrender := project.render_written disk levels h hblock t
      rw [hwritten, insert] at hrender
      exact hrender

/-- The text before the block ends in the character that a block starts with, the body spans lines,
and the value is written as a block; what follows opens a block that nothing closes. -/
theorem render_expands_unscanned :
    ¬opening <:+: "a%><".toList ∧ ¬closing <:+: "\n x\n".toList ∧
      render ⟨[(['x'], .string "<%= x %>".toList)], ['.'], .coffeeScript⟩ (.blank 0) 0
          ("a%><".toList ++ ("<%=".toList ++ ("\n x\n".toList ++ ("%>".toList ++ "<%".toList)))) =
        some (.ok "a%><<%= x %><%".toList) := by
  have hplain : ¬opening <:+: "a%><".toList := by decide
  have hbody : ¬closing <:+: "\n x\n".toList := by decide
  have expands := render_expands ⟨[(['x'], .string "<%= x %>".toList)], ['.'], .coffeeScript⟩
    (.blank 0) 0
  have hrest := (expands [] (by decide)).2.1 [] (by decide)
  have hblock := ((expands _ hplain).2.2 "\n x\n".toList "<%".toList (by decide) hbody).1
  refine ⟨hplain, hbody, hblock.trans ?_⟩
  have hvalue : valueOf
      (evaluate ⟨[(['x'], .string "<%= x %>".toList)], ['.'], .coffeeScript⟩ (.blank 0) 0)
      "\n x\n".toList = some (.ok (.string "<%= x %>".toList)) := by
    have hquery : Query.parse "\n x\n".toList = .ok (.path ['x'] []) := rfl
    rw [valueOf, hquery]
    rfl
  rw [hvalue]
  exact congrArg (("a%><<%= x %>".toList ++ ·) <$> ·) hrest

end Project

end SafeTemplate
