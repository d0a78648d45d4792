/-
**What the second pass drops.**

The second pass can be done with two cursors into a text that stays as it is.  One goes over the places
where tags open; the other goes behind the finished attributes there, and what stands between the two
is copied.  They move independently of each other, so it has to be seen that the second never gets
ahead of the first.  It does not, because no finished attribute holds a `<`.

Here the second pass is given by its cursors, and a piece is copied only if its ends are in order.
That is the pass itself, so nothing but finished attributes is ever left out.

Main definitions:

* `Markup.Span`, `Markup.Opens`, `Markup.openings` — where the tags of a text open;
* `Markup.FinishedRun`, `Markup.LongestRun` — finished attributes, one behind the other;
* `Markup.attributesEnd`, `Markup.slice?`, `Markup.copyTags` — the second pass by its cursors.

Main results:

* `Markup.mem_openings_iff` — the openings are the places where tags open;
* `Markup.longestRun_dropAttributes` — what is dropped is a longest run;
* `Markup.pairwise_openings` — the attributes at an opening end before the next one;
* `Markup.copyTags_openings` — one opening after the other is copied;
* `Markup.eraseAttributes_copies` — **the second pass copies pieces whose ends are in order, and leaves
  out the longest run of finished attributes behind each opening, and nothing else**.
-/

import SafeTemplate.Proofs.Erasure

set_option autoImplicit false

namespace SafeTemplate

namespace Markup

/-! ### Openings -/

/-- A piece of a text, from one position up to another. -/
structure Span where
  start : Nat
  stop : Nat
  deriving DecidableEq, Repr

/-- A tag opens in a text that starts at `position`: there is a `<` and a name behind it, which goes on
no further. -/
def Opens (position : Nat) (s : Text) (tag : Span) : Prop :=
  ∃ before name after, s = before ++ '<' :: (name ++ after) ∧ name ≠ [] ∧
    (∀ c ∈ name, isNameChar c = true) ∧ (∀ c ∈ after.head?, isNameChar c = false) ∧
      tag.start = position + before.length ∧ tag.stop = tag.start + 1 + name.length

/-- The openings of the tags in a text that starts at `position`, from left to right. -/
def openings (position : Nat) : Text → List Span
  | [] => []
  | c :: s =>
      let name := s.takeWhile isNameChar
      if c = '<' ∧ name ≠ [] then
        ⟨position, position + 1 + name.length⟩ :: openings (position + 1) s
      else openings (position + 1) s

theorem opens_cons_iff {c : Char} {s : Text} {position : Nat} {tag : Span} :
    Opens position (c :: s) tag ↔
      ((c = '<' ∧ s.takeWhile isNameChar ≠ []) ∧
        tag = ⟨position, position + 1 + (s.takeWhile isNameChar).length⟩) ∨
          Opens (position + 1) s tag := by
  constructor
  · rintro ⟨before, name, after, heq, hne, hname, hafter, hstart, hstop⟩
    cases before with
    | nil =>
        obtain ⟨rfl, rfl⟩ := List.cons.inj heq
        left
        rw [takeWhile_append_stop hname hafter]
        refine ⟨⟨rfl, hne⟩, ?_⟩
        cases tag
        simp_all
    | cons d before =>
        obtain ⟨rfl, rfl⟩ := List.cons.inj heq
        right
        refine ⟨before, name, after, rfl, hne, hname, hafter, ?_, hstop⟩
        rw [List.length_cons] at hstart
        omega
  · rintro (⟨⟨rfl, hne⟩, rfl⟩ | ⟨before, name, after, rfl, hne, hname, hafter, hstart, hstop⟩)
    · refine ⟨[], s.takeWhile isNameChar, s.dropWhile isNameChar, ?_, hne,
        fun c hc => List.all_eq_true.1 List.all_takeWhile c hc,
        head?_dropWhile_stop isNameChar s, rfl, rfl⟩
      rw [List.takeWhile_append_dropWhile]
      rfl
    · refine ⟨c :: before, name, after, rfl, hne, hname, hafter, ?_, hstop⟩
      rw [List.length_cons]
      omega

/-- **The openings are the places where tags open.** -/
theorem mem_openings_iff {position : Nat} {s : Text} {tag : Span} :
    tag ∈ openings position s ↔ Opens position s tag := by
  induction s generalizing position with
  | nil => simp [openings, Opens]
  | cons c s ih =>
      rw [opens_cons_iff, ← ih, openings]
      split
      · next htag => rw [List.mem_cons, and_iff_right htag]
      · next htag => exact ⟨Or.inr, fun h => h.resolve_left fun hopens => htag hopens.1⟩

theorem Opens.start_lt_stop {position : Nat} {s : Text} {tag : Span} (h : Opens position s tag) :
    tag.start < tag.stop := by
  obtain ⟨before, name, after, -, -, -, -, -, hstop⟩ := h
  omega

theorem Opens.stop_le {position : Nat} {s : Text} {tag : Span} (h : Opens position s tag) :
    tag.stop ≤ position + s.length := by
  obtain ⟨before, name, after, rfl, -, -, -, hstart, hstop⟩ := h
  simp only [List.length_append, List.length_cons]
  omega

theorem Opens.le_start {position : Nat} {s : Text} {tag : Span} (h : Opens position s tag) :
    position ≤ tag.start := by
  obtain ⟨before, name, after, -, -, -, -, hstart, -⟩ := h
  omega

theorem openings_cons {c : Char} {s : Text} (h : c = '<' → ∀ d ∈ s.head?, isNameChar d = false)
    (position : Nat) : openings position (c :: s) = openings (position + 1) s := by
  rw [openings]
  split
  · next htag =>
      have hnone : s.takeWhile isNameChar = [] := by
        simpa using @takeWhile_append_stop isNameChar [] s (by simp) (h htag.1)
      exact absurd hnone htag.2
  · rfl

/-- Where no `<` stands, no tag opens. -/
theorem openings_append {u : Text} (h : '<' ∉ u) (position : Nat) (s : Text) :
    openings position (u ++ s) = openings (position + u.length) s := by
  induction u generalizing position with
  | nil => rfl
  | cons c u ih =>
      rw [List.mem_cons, not_or] at h
      have hposition : position + 1 + u.length = position + (c :: u).length := by
        rw [List.length_cons]
        omega
      rw [List.cons_append, openings_cons (fun hc => absurd hc.symm h.1), ih h.2, hposition]

theorem openings_tag {name : Text} (hne : name ≠ []) (hname : ∀ c ∈ name, isNameChar c = true)
    {s : Text} (hs : ∀ c ∈ s.head?, isNameChar c = false) (position : Nat) :
    openings position ('<' :: (name ++ s)) =
      ⟨position, position + 1 + name.length⟩ :: openings (position + 1 + name.length) s := by
  have hopening : '<' ∉ name := not_mem_run hname rfl
  rw [openings, takeWhile_append_stop hname hs, if_pos ⟨rfl, hne⟩, openings_append hopening]

/-! ### Runs of attributes -/

/-- Finished attributes, one behind the other, and what follows them.  Each is a space, a name, and
what shows that it is finished: an empty value in quotes, or a space or `>` that comes next. -/
inductive FinishedRun : Text → Text → Prop
  | nil (rest : Text) : FinishedRun [] rest
  | cons {name mark run rest : Text} (hne : name ≠ [])
      (hname : ∀ c ∈ name, isAttributeChar c = true) (hmarks : Marks mark (run ++ rest))
      (more : FinishedRun run rest) : FinishedRun (' ' :: (name ++ (mark ++ run))) rest

/-- A run of finished attributes at the start of a text, and no other one goes on beyond it. -/
structure LongestRun (s run : Text) : Prop where
  stands : ∃ rest, s = run ++ rest ∧ FinishedRun run rest
  longest : ∀ other rest, s = other ++ rest → FinishedRun other rest → other <+: run

theorem FinishedRun.dropAttributes_append {run rest : Text} (h : FinishedRun run rest) :
    dropAttributes (run ++ rest) = dropAttributes rest := by
  induction h with
  | nil rest => rfl
  | @cons name mark run rest hne hname hmarks more ih =>
      have hsplit : ' ' :: (name ++ (mark ++ run)) ++ rest =
          ' ' :: (name ++ (mark ++ (run ++ rest))) := by simp
      rw [hsplit, dropAttributes_attribute hne hname hmarks, ih]

/-- No finished attribute holds a `<`. -/
theorem FinishedRun.opening_not_mem {run rest : Text} (h : FinishedRun run rest) : '<' ∉ run := by
  induction h with
  | nil rest => simp
  | @cons name mark run rest hne hname hmarks more ih =>
      have hopening : '<' ∉ name := not_mem_run hname rfl
      have hmark : '<' ∉ mark := by
        rcases hmarks with ⟨quote, hquote, rfl⟩ | ⟨rfl, -⟩
        · rcases isQuote_iff.1 hquote with rfl | rfl <;> decide
        · simp
      simp [hopening, hmark, ih]

theorem exists_finishedRun (s : Text) :
    ∃ run, s = run ++ dropAttributes s ∧ FinishedRun run (dropAttributes s) := by
  fun_induction dropAttributes s with
  | case1 s rest h ih =>
      obtain ⟨name, mark, hne, hname, hmarks, rfl⟩ := finishedAttribute?_eq_some_iff.1 h
      obtain ⟨run, hrest, hrun⟩ := ih
      refine ⟨' ' :: (name ++ (mark ++ run)), ?_, .cons hne hname (hrest ▸ hmarks) hrun⟩
      rw [List.cons_append, List.append_assoc, List.append_assoc, ← hrest]
  | case2 s h => exact ⟨[], rfl, .nil s⟩

/-- **What is dropped is a longest run.** -/
theorem longestRun_dropAttributes {s run : Text} (h : s = run ++ dropAttributes s)
    (hrun : FinishedRun run (dropAttributes s)) : LongestRun s run where
  stands := ⟨_, h, hrun⟩
  longest := by
    intro other rest hother hfinished
    -- behind the other run the same is left to drop, so there is no less of the text
    have hdrop : dropAttributes s = dropAttributes rest := by
      rw [hother, hfinished.dropAttributes_append]
    have hle := length_dropAttributes_le rest
    have hlength := congrArg List.length (hother.symm.trans h)
    rw [hdrop, List.length_append, List.length_append] at hlength
    refine List.prefix_of_prefix_length_le ⟨rest, hother.symm⟩ ⟨dropAttributes s, h.symm⟩ ?_
    omega

/-- The next tag opens behind the finished attributes. -/
theorem openings_dropAttributes {s run : Text} (h : s = run ++ dropAttributes s)
    (hrun : FinishedRun run (dropAttributes s)) (position : Nat) :
    openings position s = openings (position + run.length) (dropAttributes s) := by
  have hskip := openings_append hrun.opening_not_mem position (dropAttributes s)
  rwa [← h] at hskip

/-! ### The cursors -/

/-- Where the finished attributes end that stand at a position. -/
def attributesEnd (s : Text) (position : Nat) : Nat :=
  s.length - (dropAttributes (s.drop position)).length

/-- The characters from one position up to another, if these are in order and in the text. -/
def slice? (s : Text) (start stop : Nat) : Option Text :=
  if start ≤ stop ∧ stop ≤ s.length then some ((s.take stop).drop start) else none

/-- Copies a text from a position on, up to the end of each opening, and goes on behind the finished
attributes there. -/
def copyTags (s : Text) (copied : Nat) : List Span → Option Text
  | [] => slice? s copied s.length
  | tag :: more => do
      let kept ← slice? s copied tag.stop
      let rest ← copyTags s (attributesEnd s tag.stop) more
      return kept ++ rest

theorem slice?_append (front middle rest : Text) :
    slice? (front ++ (middle ++ rest)) front.length (front.length + middle.length) =
      some middle := by
  rw [slice?, if_pos (by simp only [List.length_append]; omega), ← List.append_assoc,
    ← List.length_append, List.take_left, List.drop_left]

theorem attributesEnd_append {front s run : Text} (h : s = run ++ dropAttributes s) :
    attributesEnd (front ++ s) front.length = front.length + run.length := by
  have hlength := congrArg List.length h
  rw [List.length_append] at hlength
  rw [attributesEnd, List.drop_left, List.length_append]
  omega

/-- **One opening after the other is copied.**  Between the end of the last attributes, where the second
cursor is, and the rest of the text, which is still to be gone over, some text may be pending. -/
theorem copyTags_openings (front pending s : Text) :
    copyTags (front ++ (pending ++ s)) front.length
      (openings (front.length + pending.length) s) = some (pending ++ eraseAttributes s) := by
  induction s using eraseAttributes_induction generalizing front pending with
  | nil =>
      have hslice := slice?_append front pending []
      rw [openings, copyTags, eraseAttributes, List.length_append, List.length_append]
      simpa using hslice
  | tag name s hne hname hs ih =>
      obtain ⟨run, hsplit, hrun⟩ := exists_finishedRun s
      let opened := pending ++ '<' :: name
      have htext : front ++ (pending ++ '<' :: (name ++ s)) = front ++ (opened ++ s) := by
        simp [opened]
      have hstop : front.length + pending.length + 1 + name.length =
          front.length + opened.length := by
        simp only [opened, List.length_append, List.length_cons]
        omega
      have hends : attributesEnd (front ++ (opened ++ s)) (front.length + opened.length) =
          (front ++ opened ++ run).length := by
        have hend := @attributesEnd_append (front ++ opened) s run hsplit
        rw [List.append_assoc, List.length_append] at hend
        rw [hend]
        simp only [List.length_append]
      have hmore : openings (front.length + opened.length) s =
          openings ((front ++ opened ++ run).length + 0) (dropAttributes s) := by
        rw [openings_dropAttributes hsplit hrun]
        simp only [List.length_append, Nat.add_zero]
      have hcopied := ih (front ++ opened ++ run) []
      have hback : front ++ opened ++ run ++ ([] ++ dropAttributes s) = front ++ (opened ++ s) := by
        rw [List.nil_append, List.append_assoc, ← hsplit, List.append_assoc]
      rw [hback, List.length_nil, List.nil_append] at hcopied
      rw [htext, openings_tag hne hname hs, copyTags]
      dsimp only
      rw [hstop, slice?_append, hends, hmore, hcopied, eraseAttributes_tag hne hname hs]
      simp [opened]
  | cons c s hc ih =>
      have hcopied := ih front (pending ++ [c])
      rw [openings_cons hc, eraseAttributes_cons hc]
      simpa [Nat.add_assoc] using hcopied

/-- **The attributes at an opening end before the next one.** -/
theorem pairwise_openings (front s : Text) :
    (openings front.length s).Pairwise fun tag later =>
      attributesEnd (front ++ s) tag.stop ≤ later.start := by
  induction s using eraseAttributes_induction generalizing front with
  | nil => exact List.Pairwise.nil
  | tag name s hne hname hs ih =>
      obtain ⟨run, hsplit, hrun⟩ := exists_finishedRun s
      let opened := front ++ '<' :: name
      have htext : front ++ '<' :: (name ++ s) = opened ++ s := by simp [opened]
      have hstop : front.length + 1 + name.length = opened.length := by
        simp only [opened, List.length_append, List.length_cons]
        omega
      have hmore : openings opened.length s = openings (opened ++ run).length (dropAttributes s) := by
        rw [openings_dropAttributes hsplit hrun, ← List.length_append]
      have hback : opened ++ run ++ dropAttributes s = opened ++ s := by
        rw [List.append_assoc, ← hsplit]
      have hordered := ih (opened ++ run)
      rw [hback] at hordered
      rw [htext, openings_tag hne hname hs, hstop, hmore]
      refine List.Pairwise.cons ?_ hordered
      intro later hlater
      have hle := (mem_openings_iff.1 hlater).le_start
      rw [attributesEnd_append hsplit, ← List.length_append]
      exact hle
  | cons c s hc ih =>
      have hordered := ih (front ++ [c])
      rw [openings_cons hc]
      simpa using hordered

/-! ### The second pass -/

/-- **The second pass copies pieces whose ends are in order, and leaves out the longest run of finished
attributes behind each opening, and nothing else.** -/
theorem eraseAttributes_copies (s : Text) :
    (∀ tag, tag ∈ openings 0 s ↔ Opens 0 s tag) ∧
      ((openings 0 s).Pairwise fun tag later =>
        attributesEnd s tag.stop ≤ later.start ∧ later.start < later.stop) ∧
      (∀ tag ∈ openings 0 s, ∃ run, LongestRun (s.drop tag.stop) run ∧
        attributesEnd s tag.stop = tag.stop + run.length) ∧
      copyTags s 0 (openings 0 s) = some (eraseAttributes s) := by
  refine ⟨fun tag => mem_openings_iff, ?_, ?_, ?_⟩
  · have hordered := pairwise_openings [] s
    refine hordered.imp_of_mem ?_
    intro tag later htag hlater hle
    exact ⟨hle, (mem_openings_iff.1 hlater).start_lt_stop⟩
  · intro tag htag
    obtain ⟨run, hsplit, hrun⟩ := exists_finishedRun (s.drop tag.stop)
    refine ⟨run, longestRun_dropAttributes hsplit hrun, ?_⟩
    have hle := (mem_openings_iff.1 htag).stop_le
    have hend := @attributesEnd_append (s.take tag.stop) _ run hsplit
    rw [List.take_append_drop, List.length_take] at hend
    rwa [Nat.min_eq_left (by omega)] at hend
  · exact copyTags_openings [] [] s

/-- Two tags, with a value that is not empty behind the attributes of the first one. -/
example : openings 0 "<a b c='' d='x'><i e>".toList = [⟨0, 2⟩, ⟨16, 18⟩] ∧
    attributesEnd "<a b c='' d='x'><i e>".toList 2 = 9 ∧
    eraseAttributes "<a b c='' d='x'><i e>".toList = "<a d='x'><i>".toList := by
  cbv

end Markup

end SafeTemplate
