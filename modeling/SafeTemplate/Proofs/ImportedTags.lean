/-
**What an import does to tags.**

A template file is imported as one line: its line ends are dropped, and with them the spaces at the
start of each line.  In text this matters to no tag.  Within a tag a line end may be what keeps a name
and an item apart, or two items, and dropping it joins them; in quotes it belongs to a value.  A line
end is *loose* if nothing like this depends on it: it stands in text, or behind a blank of a tag, or
nothing but blanks stands between it and the end of the tag.

The file and the line are read side by side.  As long as the line ends are loose, both readings are
the same, up to a pause before the end of a tag.  At the first line end that is not loose they part
for good: the tag of the line goes on with a name or an item that has ended in the file, or the item of
the file has a line end in it, which no item of the line has.

Main definitions:

* `Text.oneLine` — a file as one line, in one pass;
* `Markup.Reading.Loose`, `Markup.LooseLineEnds` — line ends that no tag depends on;
* `Markup.Reading.InStep` — the readings of the file and of the line, side by side.

Main results:

* `Project.templateLine_unifyLineEnds` — importing drops what the one pass drops;
* `Markup.tags_oneLine` — **where all line ends are loose, the line has the tags of the file**;
* `Markup.loose_of_tags_eq` — **and only there**, if the line is accepted as a template;
* `Project.callHelper_importHtml` — what is imported has the tags of its file exactly if the line ends of
  the file are loose, and `Project.not_callHelper_importHtml` — they are not always.
-/

import SafeTemplate.Proofs.PlainText
import SafeTemplate.Proofs.Substitution
import SafeTemplate.Proofs.TagReading

set_option autoImplicit false

namespace SafeTemplate

/-! ### One line -/

namespace Text

/-- Whether a line ends here: with LF or CR LF.  Reading a file makes CR LF of CR CR LF, so that counts,
too. -/
def startsLineEnd : Text → Bool
  | '\n' :: _ => true
  | '\r' :: '\n' :: _ => true
  | '\r' :: '\r' :: '\n' :: _ => true
  | _ => false

/-- A file as one line: without line ends and without the spaces behind them, and without the spaces at
the start if `atStart`. -/
def oneLine (atStart : Bool) : Text → Text
  | [] => []
  | c :: s =>
      if startsLineEnd (c :: s) || (atStart && c == ' ') then oneLine true s
      else c :: oneLine false s

theorem eq_of_startsLineEnd {c : Char} {s : Text} (h : startsLineEnd (c :: s) = true) :
    c = '\n' ∨ (c = '\r' ∧ startsLineEnd s = true) := by
  unfold startsLineEnd at h
  split at h
  · next heq => exact Or.inl (List.cons.inj heq).1
  · next heq =>
      obtain ⟨rfl, rfl⟩ := List.cons.inj heq
      exact Or.inr ⟨rfl, rfl⟩
  · next heq =>
      obtain ⟨rfl, rfl⟩ := List.cons.inj heq
      exact Or.inr ⟨rfl, rfl⟩
  · cases h

theorem isBlank_of_startsLineEnd {c : Char} {s : Text} (h : startsLineEnd (c :: s) = true) :
    isBlank c = true := by
  rcases eq_of_startsLineEnd h with rfl | ⟨rfl, -⟩ <;> rfl

/-- What is dropped is blank. -/
theorem isBlank_of_dropped {atStart : Bool} {c : Char} {s : Text}
    (h : (startsLineEnd (c :: s) || (atStart && c == ' ')) = true) : isBlank c = true := by
  rcases Bool.or_eq_true_iff.1 h with hend | hspace
  · exact isBlank_of_startsLineEnd hend
  · obtain rfl : c = ' ' := by simpa using (Bool.and_eq_true_iff.1 hspace).2
    rfl

theorem oneLine_of_dropped {atStart : Bool} {c : Char} {s : Text}
    (h : (startsLineEnd (c :: s) || (atStart && c == ' ')) = true) :
    oneLine atStart (c :: s) = oneLine true s := by
  rw [oneLine, if_pos h]

theorem oneLine_of_kept {atStart : Bool} {c : Char} {s : Text}
    (h : ¬(startsLineEnd (c :: s) || (atStart && c == ' ')) = true) :
    oneLine atStart (c :: s) = c :: oneLine false s := by
  rw [oneLine, if_neg h]

theorem oneLine_sublist (atStart : Bool) (s : Text) : (oneLine atStart s).Sublist s := by
  fun_induction oneLine atStart s with
  | case1 => exact List.Sublist.slnil
  | case2 atStart c s h ih => exact ih.cons c
  | case3 atStart c s h ih => exact ih.cons_cons c

/-- No LF is left. -/
theorem lf_not_mem_oneLine (atStart : Bool) (s : Text) : '\n' ∉ oneLine atStart s := by
  fun_induction oneLine atStart s with
  | case1 => exact List.not_mem_nil
  | case2 atStart c s h ih => exact ih
  | case3 atStart c s h ih =>
      intro hmem
      rcases List.mem_cons.1 hmem with rfl | hmem
      · exact h rfl
      · exact ih hmem

/-- At the start of a line no space is left. -/
theorem head?_oneLine_ne_space (s : Text) : (oneLine true s).head? ≠ some ' ' := by
  induction s with
  | nil => simp [oneLine]
  | cons c s ih =>
      rw [oneLine]
      split
      · exact ih
      · next h =>
          intro hspace
          obtain rfl : c = ' ' := Option.some.inj hspace
          simp at h

/-- The first character of the line is the first character of the file that is not blank, unless it is
blank itself. -/
theorem head?_dropWhile_of_oneLine {atStart : Bool} {s : Text} {d : Char}
    (h : (oneLine atStart s).head? = some d) (hd : isBlank d = false) :
    (s.dropWhile isBlank).head? = some d := by
  fun_induction oneLine atStart s with
  | case1 => cases h
  | case2 atStart c s hdropped ih =>
      rw [List.dropWhile_cons_of_pos (isBlank_of_dropped hdropped)]
      exact ih h
  | case3 atStart c s hkept ih =>
      obtain rfl : c = d := Option.some.inj h
      rw [List.dropWhile_cons_of_neg (by simp [hd])]
      rfl

end Text

/-- Behind CR, reading a file leaves LF only where a line ends with the CR. -/
theorem Text.startsLineEnd_of_head? {s : Text}
    (h : (dropSpaces false (unifyLineEnds s)).head? = some '\n') :
    startsLineEnd ('\r' :: s) = true := by
  cases s with
  | nil => cases h
  | cons c s =>
      by_cases hpair : ∃ t, c = '\r' ∧ s = '\n' :: t
      · obtain ⟨t, rfl, rfl⟩ := hpair
        rfl
      · have hread : unifyLineEnds (c :: s) = c :: unifyLineEnds s :=
          unifyLineEnds.eq_2 c s fun t hc hs => hpair ⟨t, hc, hs⟩
        rw [hread] at h
        obtain rfl : c = '\n' := Option.some.inj h
        rfl

/-- Importing a file drops what the one pass drops. -/
theorem Project.templateLine_unifyLineEnds (file : Text) :
    templateLine (Text.unifyLineEnds file) = Text.oneLine true file := by
  suffices h : ∀ atStart,
      Text.dropLineEnds (Text.dropSpaces atStart (Text.unifyLineEnds file)) =
        Text.oneLine atStart file from h true
  induction file with
  | nil => exact fun _ => rfl
  | cons c s ih =>
      intro atStart
      by_cases hend : Text.startsLineEnd (c :: s) = true
      · have hdropped : Text.oneLine atStart (c :: s) = Text.oneLine true s :=
          Text.oneLine_of_dropped (by rw [hend, Bool.true_or])
        rw [hdropped, ← ih true]
        unfold Text.startsLineEnd at hend
        -- what is left of a line end behind its first character is a line end, too
        split at hend
        · next heq =>
            obtain ⟨rfl, rfl⟩ := List.cons.inj heq
            cases atStart <;> rfl
        · next heq =>
            obtain ⟨rfl, rfl⟩ := List.cons.inj heq
            cases atStart <;> rfl
        · next heq =>
            obtain ⟨rfl, rfl⟩ := List.cons.inj heq
            cases atStart <;> rfl
        · cases hend
      · have hlf : c ≠ '\n' := by
          rintro rfl
          exact hend rfl
        have hread : Text.unifyLineEnds (c :: s) = c :: Text.unifyLineEnds s := by
          refine Text.unifyLineEnds.eq_2 c s ?_
          rintro t rfl rfl
          exact hend rfl
        rw [hread, Text.dropSpaces]
        by_cases hspace : (atStart && c == ' ') = true
        · rw [if_pos hspace, ih true, Text.oneLine_of_dropped (by rw [hspace, Bool.or_true])]
        · have hkept : ¬(Text.startsLineEnd (c :: s) || (atStart && c == ' ')) = true := by
            rw [Bool.or_eq_true]
            exact not_or.2 ⟨hend, hspace⟩
          have hfalse : (c == '\n') = false := by simpa using hlf
          rw [if_neg hspace, Text.oneLine_of_kept hkept, hfalse, ← ih false]
          refine Text.dropLineEnds.eq_3 c _ ?_ hlf
          intro t hc ht
          exact hend (hc ▸ Text.startsLineEnd_of_head? (by rw [ht]; rfl))

namespace Markup

/-! ### Loose line ends -/

namespace Reading

/-- Whether a blank makes no difference here: outside of tags, or behind a blank in a tag. -/
def isIdle : Reading → Bool
  | text => true
  | item _ s => s.isEmpty
  | _ => false

/-- Whether no tag depends on a line end, given what follows: a blank makes no difference there, or
nothing but blanks stands before the end of the tag. -/
def Loose (reading : Reading) (after : Text) : Prop :=
  reading.isIdle = true ∨
    (reading.isOpen = true ∧ (after.dropWhile Text.isBlank).head? = some '>')

/-- All line ends of a text are loose. -/
def LooseLineEnds (reading : Reading) (s : Text) : Prop :=
  ∀ before after, s = before ++ after → Text.startsLineEnd after = true →
    (reading.run before).Loose after

theorem looseLineEnds_cons_iff {reading : Reading} {c : Char} {s : Text} :
    reading.LooseLineEnds (c :: s) ↔
      (Text.startsLineEnd (c :: s) = true → reading.Loose (c :: s)) ∧
        (reading.next c).LooseLineEnds s := by
  constructor
  · intro h
    refine ⟨h [] (c :: s) rfl, ?_⟩
    rintro before after rfl hend
    exact h (c :: before) after rfl hend
  · rintro ⟨hhead, hs⟩ before after heq hend
    cases before with
    | nil =>
        obtain rfl : c :: s = after := heq
        exact hhead hend
    | cons d before =>
        obtain ⟨rfl, rfl⟩ := List.cons.inj heq
        exact hs before after rfl hend

/-! ### Blanks -/

theorem next_of_isIdle {reading : Reading} (h : reading.isIdle = true) {c : Char}
    (hc : Text.isBlank c = true) : reading.next c = reading := by
  cases reading with
  | text =>
      have hlt : c ≠ '<' := by
        rintro rfl
        exact absurd hc (by decide)
      rw [next, if_neg hlt]
  | name closing s => cases h
  | item tag s =>
      obtain rfl : s = [] := List.isEmpty_iff.1 h
      rw [next, if_neg (ne_closing_of_isBlank hc), if_pos hc, Tag.add, if_pos rfl]
  | quoted tag s quote => cases h

/-- Behind a blank outside of quotes, another one makes no difference. -/
theorem next_of_isOpen {reading : Reading} (h : reading.isOpen = true) {c : Char}
    (hc : Text.isBlank c = true) :
    reading.next c = reading.next ' ' ∧ (reading.next ' ').isIdle = true := by
  cases reading with
  | text => cases h
  | name closing s =>
      rw [next, if_neg (ne_closing_of_isBlank hc), if_pos hc]
      exact ⟨rfl, rfl⟩
  | item tag s =>
      rw [next, if_neg (ne_closing_of_isBlank hc), if_pos hc]
      exact ⟨rfl, rfl⟩
  | quoted tag s quote => cases h

theorem finished_of_ne (reading : Reading) {c : Char} (hc : c ≠ '>') : reading.finished c = [] := by
  cases reading with
  | text => rfl
  | name closing s => rw [finished, if_neg hc]
  | item tag s => rw [finished, if_neg hc]
  | quoted tag s quote => rfl

theorem finished_of_isBlank (reading : Reading) {c : Char} (hc : Text.isBlank c = true) :
    reading.finished c = [] :=
  finished_of_ne reading (ne_closing_of_isBlank hc)

/-- A pause before the end of a tag makes no difference. -/
theorem finished_pause {reading : Reading} (h : reading.isOpen = true) :
    (reading.next ' ').finished '>' = reading.finished '>' := by
  cases reading with
  | text => cases h
  | name closing s => rfl
  | item tag s =>
      have hadd : ∀ tag : Tag, tag.add [] = tag := fun tag => if_pos rfl
      exact congrArg (fun tag => [tag]) (hadd (tag.add s))
  | quoted tag s quote => cases h

theorem next_pause {reading : Reading} (h : reading.isOpen = true) :
    (reading.next ' ').next '>' = reading.next '>' := by
  cases reading with
  | text => cases h
  | name closing s => rfl
  | item tag s => rfl
  | quoted tag s quote => cases h

/-! ### Side by side -/

/-- The reading of a file and the reading of its line, given what is left of the file: they are the
same, or the file pauses before the end of a tag. -/
inductive InStep : Reading → Reading → Text → Prop
  | same (reading : Reading) (s : Text) : InStep reading reading s
  | pause {reading : Reading} {s : Text} (hopen : reading.isOpen = true)
      (h : (s.dropWhile Text.isBlank).head? = some '>') : InStep (reading.next ' ') reading s

/-- A character of the line is read in step. -/
theorem InStep.kept {reading reading' : Reading} {c : Char} {s : Text}
    (h : InStep reading reading' (c :: s)) :
    reading.finished c = reading'.finished c ∧ InStep (reading.next c) (reading'.next c) s := by
  generalize hfile : c :: s = file at h
  cases h with
  | same => exact ⟨rfl, .same _ s⟩
  | pause hopen hend =>
      subst hfile
      by_cases hblank : Text.isBlank c = true
      · obtain ⟨hnext, hidle⟩ := next_of_isOpen hopen hblank
        refine ⟨(finished_of_isBlank _ hblank).trans (finished_of_isBlank _ hblank).symm, ?_⟩
        rw [next_of_isIdle hidle hblank, hnext]
        exact .same _ s
      · rw [List.dropWhile_cons_of_neg hblank] at hend
        obtain rfl : c = '>' := Option.some.inj hend
        refine ⟨finished_pause hopen, ?_⟩
        rw [next_pause hopen]
        exact .same _ s

/-- A blank that the line does not have is read in step if it is loose, and the next one is loose then,
too. -/
theorem InStep.dropped {reading reading' : Reading} {c : Char} {s : Text}
    (h : InStep reading reading' (c :: s)) (hblank : Text.isBlank c = true)
    (hloose : reading.Loose (c :: s)) :
    InStep (reading.next c) reading' s ∧ (reading.next c).isIdle = true := by
  generalize hfile : c :: s = file at h
  cases h with
  | same =>
      subst hfile
      rcases hloose with hidle | ⟨hopen, hend⟩
      · rw [next_of_isIdle hidle hblank]
        exact ⟨.same reading s, hidle⟩
      · rw [List.dropWhile_cons_of_pos hblank] at hend
        obtain ⟨hnext, hidle⟩ := next_of_isOpen hopen hblank
        rw [hnext]
        exact ⟨.pause hopen hend, hidle⟩
  | pause hopen hend =>
      subst hfile
      rw [List.dropWhile_cons_of_pos hblank] at hend
      have hidle := (next_of_isOpen hopen hblank).2
      rw [next_of_isIdle hidle hblank]
      exact ⟨.pause hopen hend, hidle⟩

/-- What is dropped is loose if the line end is. -/
theorem loose_of_dropped {reading : Reading} {atStart : Bool} {c : Char} {s : Text}
    (hstart : atStart = true → reading.isIdle = true)
    (hhead : Text.startsLineEnd (c :: s) = true → reading.Loose (c :: s))
    (h : (Text.startsLineEnd (c :: s) || (atStart && c == ' ')) = true) :
    reading.Loose (c :: s) := by
  rcases Bool.or_eq_true_iff.1 h with hend | hspace
  · exact hhead hend
  · exact Or.inl (hstart (Bool.and_eq_true_iff.1 hspace).1)

theorem tagsFrom_oneLine {reading reading' : Reading} {atStart : Bool} {s : Text}
    (h : InStep reading reading' s) (hstart : atStart = true → reading.isIdle = true)
    (hloose : reading.LooseLineEnds s) :
    reading'.tagsFrom (Text.oneLine atStart s) = reading.tagsFrom s := by
  induction s generalizing reading reading' atStart with
  | nil => rfl
  | cons c s ih =>
      obtain ⟨hhead, hs⟩ := looseLineEnds_cons_iff.1 hloose
      by_cases hdropped : (Text.startsLineEnd (c :: s) || (atStart && c == ' ')) = true
      · have hblank := Text.isBlank_of_dropped hdropped
        obtain ⟨hstep, hidle⟩ := h.dropped hblank (loose_of_dropped hstart hhead hdropped)
        rw [Text.oneLine_of_dropped hdropped, tagsFrom, finished_of_isBlank reading hblank,
          List.nil_append]
        exact ih hstep (fun _ => hidle) hs
      · obtain ⟨hfinished, hstep⟩ := h.kept
        rw [Text.oneLine_of_kept hdropped, tagsFrom, tagsFrom, hfinished]
        rw [ih hstep (fun hfalse => by cases hfalse) hs]

/-! ### Blocks in the line -/

/-- Behind `<` a blank does make a difference, wherever it stands. -/
theorem not_isIdle_next_opening (reading : Reading) : (reading.next '<').isIdle = false := by
  cases reading with
  | text => rfl
  | name closing s => rfl
  | item tag s =>
      have hnext : (item tag s).next '<' = item tag (s ++ ['<']) := next_item (by decide) rfl rfl
      rw [hnext]
      exact List.isEmpty_eq_false_iff.2 (List.concat_ne_nil _ _)
  | quoted tag s quote =>
      rw [next]
      split
      · exact List.isEmpty_eq_false_iff.2 (List.concat_ne_nil _ _)
      · rfl

/-- A block that opens in the line opens in the file, if all line ends are loose. -/
theorem not_opening_infix_oneLine {reading : Reading} {atStart : Bool} {s : Text}
    (hloose : reading.LooseLineEnds s) (h : ¬Block.opening <:+: s) :
    ¬Block.opening <:+: Text.oneLine atStart s := by
  induction s generalizing reading atStart with
  | nil => exact h
  | cons c s ih =>
      obtain ⟨-, hs⟩ := looseLineEnds_cons_iff.1 hloose
      have htail : ¬Block.opening <:+: s := fun hinside =>
        h (hinside.trans (List.suffix_cons c s).isInfix)
      by_cases hdropped : (Text.startsLineEnd (c :: s) || (atStart && c == ' ')) = true
      · rw [Text.oneLine_of_dropped hdropped]
        exact ih hs htail
      · rw [Text.oneLine_of_kept hdropped, List.infix_cons_iff]
        rintro (hstart | hinside)
        · obtain ⟨rfl, hpercent⟩ := List.cons_prefix_cons.1 hstart
          obtain ⟨t, ht⟩ := hpercent
          cases s with
          | nil => cases ht
          | cons d s =>
              obtain ⟨hhead, -⟩ := looseLineEnds_cons_iff.1 hs
              by_cases hend : Text.startsLineEnd (d :: s) = true
              · -- then the percent sign would be the first character behind a loose line end
                rcases hhead hend with hidle | ⟨-, hgt⟩
                · exact absurd hidle (by simp [not_isIdle_next_opening])
                · have hfirst : (Text.oneLine false (d :: s)).head? = some '%' := by rw [← ht]; rfl
                  rw [Text.head?_dropWhile_of_oneLine hfirst rfl] at hgt
                  exact absurd hgt (by decide)
              · rw [Text.oneLine_of_kept (by simpa using hend)] at ht
                obtain rfl := (List.cons.inj ht).1
                exact h ⟨[], s, rfl⟩
        · exact ih hs htail hinside

/-! ### Line ends that are not loose -/

/-- A text joins what has ended in the file: its next tag is not the one of the file. -/
theorem not_began_joined {reading : Reading} (hopen : reading.isOpen = true)
    (hidle : reading.isIdle = false) {d : Char} (hgt : d ≠ '>') (hd : Text.isBlank d = false)
    {tag : Tag} (hfile : (reading.next ' ').Began tag) : ¬(reading.next d).Began tag := by
  intro hline
  cases reading with
  | text => cases hopen
  | name closing s =>
      obtain ⟨hclosing, hname, -⟩ := hfile
      have hnext : (name closing s).next d =
          if d = '/' ∧ s = [] ∧ closing = false then name true [] else name closing (s ++ [d]) := by
        rw [next, if_neg hgt, if_neg (by simp [hd])]
      rw [hnext] at hline
      split at hline
      · next hslash =>
          have htrue := (hline (Or.inl rfl)).1
          rw [htrue, hslash.2.2] at hclosing
          cases hclosing
      · have hlength := (hline (Or.inr (List.concat_ne_nil _ _))).2.length_le
        rw [hname] at hlength
        simp at hlength
  | item tag' s =>
      have hs : s ≠ [] := List.isEmpty_eq_false_iff.1 hidle
      have hjoined : Continues tag' (s ++ [d]) tag := by
        rw [next, if_neg hgt, if_neg (by simp [hd])] at hline
        split at hline
        · exact hline
        · exact hline
      have hended : Continues (tag'.add s) [] tag := hfile
      obtain ⟨-, -, more, hmore, hstart⟩ := hjoined
      obtain ⟨t, rest, rfl⟩ := hstart (List.concat_ne_nil _ _)
      obtain ⟨-, -, more', hmore', -⟩ := hended
      have hboth : tag'.items ++ (s ++ [d] ++ t) :: rest = tag'.items ++ s :: more' := by
        rw [← hmore, hmore', Tag.add, if_neg hs]
        simp
      have hitem := (List.cons.inj (List.append_cancel_left hboth)).1
      have hlength := congrArg List.length hitem
      simp at hlength
  | quoted tag' s quote => cases hopen

/-- In quotes a line end belongs to the item. -/
theorem lf_mem_of_quoted {tag tag' : Tag} {item s : Text} {quote : Quote} {rest : List Tag}
    (hend : Text.startsLineEnd s = true)
    (h : (quoted tag item quote).tagsFrom s = tag' :: rest) : ∃ i ∈ tag'.items, '\n' ∈ i := by
  have hquote : ∀ {c : Char}, isQuote c = false → c ≠ quote.val := fun hc =>
    (ne_of_kind quote.property hc).symm
  induction s generalizing item with
  | nil => cases hend
  | cons c s ih =>
      rcases Text.eq_of_startsLineEnd hend with rfl | ⟨rfl, hrest⟩
      · have hnext : (quoted tag item quote).next '\n' = quoted tag (item ++ ['\n']) quote :=
          if_neg (hquote rfl)
        rw [tagsFrom, hnext] at h
        obtain ⟨-, -, more, hitems, hstart⟩ := began_of_tagsFrom h
        obtain ⟨t, others, rfl⟩ := hstart (List.concat_ne_nil _ _)
        exact ⟨item ++ ['\n'] ++ t, by simp [hitems], by simp⟩
      · have hnext : (quoted tag item quote).next '\r' = quoted tag (item ++ ['\r']) quote :=
          if_neg (hquote rfl)
        rw [tagsFrom, hnext] at h
        exact ih hrest h

/-- A tidy line goes on in a tag with a character that is not blank.  It is the first such character of
the file, so it does not end the tag unless nothing but blanks stands before its end. -/
theorem exists_next_of_tidy {reading : Reading} (hopen : reading.isOpen = true) {s : Text}
    (hgt : (s.dropWhile Text.isBlank).head? ≠ some '>')
    (htidy : reading.Tidy (Text.oneLine true s)) :
    ∃ d t, Text.oneLine true s = d :: t ∧ d ≠ '>' ∧ Text.isBlank d = false := by
  cases hs : Text.oneLine true s with
  | nil =>
      rw [hs] at htidy
      obtain rfl : reading = text := htidy
      cases hopen
  | cons d t =>
      have hfirst : (Text.oneLine true s).head? = some d := by rw [hs]; rfl
      rw [hs] at htidy
      have hblank : Text.isBlank d = false := by
        refine Bool.eq_false_iff.2 fun hblank => Text.head?_oneLine_ne_space s ?_
        rw [hfirst, htidy.1 hopen hblank]
      refine ⟨d, t, rfl, ?_, hblank⟩
      rintro rfl
      exact hgt (Text.head?_dropWhile_of_oneLine hfirst hblank)

/-- At a line end that is not loose the two readings part: if the tags from there on are the same all the
same, an item has a line end in it. -/
theorem lf_mem_of_not_loose {reading : Reading} {atStart : Bool} {c : Char} {s : Text}
    (hend : Text.startsLineEnd (c :: s) = true) (hnot : ¬reading.Loose (c :: s))
    (htidy : reading.Tidy (Text.oneLine atStart (c :: s)))
    (h : reading.tagsFrom (Text.oneLine atStart (c :: s)) = reading.tagsFrom (c :: s)) :
    ∃ tag ∈ reading.tagsFrom (c :: s), ∃ item ∈ tag.items, '\n' ∈ item := by
  have hline : Text.oneLine atStart (c :: s) = Text.oneLine true s :=
    Text.oneLine_of_dropped (by rw [hend, Bool.true_or])
  have hblank := Text.isBlank_of_startsLineEnd hend
  obtain ⟨hidle, hgt⟩ := not_or.1 hnot
  have hidle : reading.isIdle = false := Bool.eq_false_iff.2 hidle
  have htext : reading ≠ text := by
    rintro rfl
    cases hidle
  rw [hline] at htidy h
  obtain ⟨tag, rest, htags⟩ := List.exists_cons_of_ne_nil (htidy.tagsFrom_ne_nil htext)
  have hfile : reading.tagsFrom (c :: s) = tag :: rest := h.symm.trans htags
  refine ⟨tag, hfile ▸ List.mem_cons_self .., ?_⟩
  by_cases hopen : reading.isOpen = true
  · -- the line goes on with what has ended in the file
    have hgt' : (s.dropWhile Text.isBlank).head? ≠ some '>' := by
      rw [← List.dropWhile_cons_of_pos hblank]
      exact fun hclosing => hgt ⟨hopen, hclosing⟩
    obtain ⟨d, t, hs, hd, hvisible⟩ := exists_next_of_tidy hopen hgt' htidy
    rw [hs, tagsFrom, finished_of_ne reading hd, List.nil_append] at htags
    rw [tagsFrom, finished_of_isBlank reading hblank, List.nil_append,
      (next_of_isOpen hopen hblank).1] at hfile
    exact absurd (began_of_tagsFrom htags)
      (not_began_joined hopen hidle hd hvisible (began_of_tagsFrom hfile))
  · cases reading with
    | text => exact absurd rfl htext
    | name closing s => exact absurd rfl hopen
    | item tag s => exact absurd rfl hopen
    | quoted tag' item quote => exact lf_mem_of_quoted hend hfile

theorem lf_mem_of_tagsFrom_eq {reading reading' : Reading} {atStart : Bool} {s : Text}
    (hstep : InStep reading reading' s) (hstart : atStart = true → reading.isIdle = true)
    (hnot : ¬reading.LooseLineEnds s) (htidy : reading'.Tidy (Text.oneLine atStart s))
    (h : reading'.tagsFrom (Text.oneLine atStart s) = reading.tagsFrom s) :
    ∃ tag ∈ reading.tagsFrom s, ∃ item ∈ tag.items, '\n' ∈ item := by
  induction s generalizing reading reading' atStart with
  | nil =>
      refine absurd (fun before after heq hend => ?_) hnot
      rw [(List.append_eq_nil_iff.1 heq.symm).2] at hend
      cases hend
  | cons c s ih =>
      by_cases hhead : Text.startsLineEnd (c :: s) = true → reading.Loose (c :: s)
      · have hs : ¬(reading.next c).LooseLineEnds s := fun hs =>
          hnot (looseLineEnds_cons_iff.2 ⟨hhead, hs⟩)
        have hlater : (∃ tag ∈ (reading.next c).tagsFrom s, ∃ item ∈ tag.items, '\n' ∈ item) →
            ∃ tag ∈ reading.tagsFrom (c :: s), ∃ item ∈ tag.items, '\n' ∈ item := by
          rintro ⟨tag, htag, hitem⟩
          exact ⟨tag, List.mem_append_right _ htag, hitem⟩
        by_cases hdropped : (Text.startsLineEnd (c :: s) || (atStart && c == ' ')) = true
        · have hblank := Text.isBlank_of_dropped hdropped
          obtain ⟨hnext, hidle⟩ :=
            hstep.dropped hblank (loose_of_dropped hstart hhead hdropped)
          rw [Text.oneLine_of_dropped hdropped] at htidy h
          rw [tagsFrom.eq_2 reading, finished_of_isBlank reading hblank, List.nil_append] at h
          exact hlater (ih hnext (fun _ => hidle) hs htidy h)
        · obtain ⟨hfinished, hnext⟩ := hstep.kept
          rw [Text.oneLine_of_kept hdropped] at htidy h
          rw [tagsFrom, tagsFrom, hfinished] at h
          exact hlater (ih hnext (fun hfalse => by cases hfalse) hs htidy.2
            (List.append_cancel_left h))
      · obtain ⟨hend, hloose⟩ := Classical.not_imp.1 hhead
        generalize hfile : c :: s = file at hstep
        cases hstep with
        | same =>
            subst hfile
            exact lf_mem_of_not_loose hend hloose htidy h
        | pause hopen hgt =>
            have hspace : Text.isBlank ' ' = true := rfl
            exact absurd (Or.inl (next_of_isOpen hopen hspace).2) hloose

/-- What has been read of the items does not hold a character. -/
def Lacks (c : Char) : Reading → Prop
  | text => True
  | name .. => True
  | item tag s => c ∉ s ∧ ∀ i ∈ tag.items, c ∉ i
  | quoted tag s _ => c ∉ s ∧ ∀ i ∈ tag.items, c ∉ i

theorem not_mem_add {c : Char} {tag : Tag} {s : Text} (hs : c ∉ s) (htag : ∀ i ∈ tag.items, c ∉ i) :
    ∀ i ∈ (tag.add s).items, c ∉ i := by
  intro i hi
  rw [Tag.add] at hi
  split at hi
  · exact htag i hi
  · rcases List.mem_append.1 hi with hi | hi
    · exact htag i hi
    · exact List.mem_singleton.1 hi ▸ hs

theorem Lacks.next {c d : Char} {reading : Reading} (h : reading.Lacks c) (hd : c ≠ d) :
    (reading.next d).Lacks c := by
  have hpush : ∀ {s : Text}, c ∉ s → c ∉ s ++ [d] := by
    intro s hs hmem
    rcases List.mem_append.1 hmem with hmem | hmem
    · exact hs hmem
    · exact hd (List.mem_singleton.1 hmem)
  cases reading with
  | text =>
      rw [Reading.next]
      split <;> trivial
  | name closing s =>
      rw [Reading.next]
      split_ifs
      · trivial
      · exact ⟨List.not_mem_nil, fun i hi => by cases hi⟩
      · trivial
      · trivial
  | item tag s =>
      rw [Reading.next]
      split_ifs
      · trivial
      · exact ⟨List.not_mem_nil, not_mem_add h.1 h.2⟩
      · exact ⟨hpush h.1, h.2⟩
      · exact ⟨hpush h.1, h.2⟩
  | quoted tag s quote =>
      rw [Reading.next]
      split_ifs
      · exact ⟨hpush h.1, h.2⟩
      · exact ⟨hpush h.1, h.2⟩

/-- The items of a text hold what it holds. -/
theorem not_mem_items {c : Char} {reading : Reading} (h : reading.Lacks c) {s : Text} (hs : c ∉ s) :
    ∀ tag ∈ reading.tagsFrom s, ∀ i ∈ tag.items, c ∉ i := by
  induction s generalizing reading with
  | nil => exact fun tag htag => by cases htag
  | cons d s ih =>
      obtain ⟨hd, hs⟩ := not_or.1 (fun hmem => hs (List.mem_cons.2 hmem))
      intro tag htag
      rcases List.mem_append.1 htag with htag | htag
      · cases reading with
        | text => cases htag
        | name closing s =>
            rw [finished] at htag
            split at htag
            · rw [List.mem_singleton.1 htag]
              exact fun i hi => by cases hi
            · cases htag
        | item tag' s =>
            rw [finished] at htag
            split at htag
            · rw [List.mem_singleton.1 htag]
              exact not_mem_add h.1 h.2
            · cases htag
        | quoted tag' s quote => cases htag
      · exact ih (h.next hd) hs tag htag

end Reading

/-- All line ends of a file are loose. -/
def LooseLineEnds (file : Text) : Prop :=
  Reading.text.LooseLineEnds file

/-- **Where all line ends are loose, the line has the tags of the file.** -/
theorem tags_oneLine {file : Text} (h : LooseLineEnds file) :
    tags (Text.oneLine true file) = tags file :=
  Reading.tagsFrom_oneLine (.same .text file) (fun _ => rfl) h

/-- **Only there**, if the line leaves nothing open. -/
theorem loose_of_tags_eq {file : Text} (hclosed : leftOpen (Text.oneLine true file) = [])
    (h : tags (Text.oneLine true file) = tags file) : LooseLineEnds file := by
  by_contra hnot
  obtain ⟨tag, htag, item, hitem, hlf⟩ := Reading.lf_mem_of_tagsFrom_eq (.same .text file)
    (fun _ => rfl) hnot (tidy_of_leftOpen hclosed) h
  have hline : tag ∈ tags (Text.oneLine true file) := h ▸ htag
  have hlacks : Reading.text.Lacks '\n' := trivial
  exact Reading.not_mem_items hlacks (Text.lf_not_mem_oneLine true file) tag hline item hitem hlf

end Markup

/-! ### Imports -/

/-- The meaning of a template that is one literal text. -/
def Tree.ofText (text : Text) : Tree :=
  if text = [] then .empty else .sequence [.literal text]

/-- A template of plain text that is compiled leaves nothing open, and it is its literal text. -/
theorem Template.compileElement_plain {host : Host} {s code : Text}
    (hplain : ∀ c ∈ s, Literal.isPlain c = true) (h : compileElement host s = .ok code) :
    Markup.leftOpen s = [] ∧ code = host.wrap ((Tree.ofText s).emit host) := by
  by_cases hne : s = []
  · subst hne
    cases h
    have hclosed : Markup.leftOpen [] = [] := by
      simp [Markup.leftOpen, Markup.eraseValues, Markup.eraseAttributes, Markup.eraseClosed]
    exact ⟨hclosed, rfl⟩
  · rw [compileElement, compile, parse_plain .topLevel hne hplain, Residue.advance_topLevel] at h
    by_cases hback : Residue.mk (Markup.leftOpen s) = .topLevel
    · rw [if_pos hback] at h
      cases h
      exact ⟨congrArg Residue.text hback, by rw [Tree.ofText, if_neg hne]⟩
    · rw [if_neg hback] at h
      cases h

namespace Project

open Block (opening)
open Markup (tags LooseLineEnds)

variable {project : Project} {disk : Disk} {levels : Nat} {name file : Text}

/-- An import expands its file as one line and compiles it. -/
theorem callHelper_importHtml_eq
    (hfile : disk.readExactText (project.templatePath name) = .ok file) :
    project.callHelper disk levels Helper.importHtml.name [.string name] = (do
      let template ← project.expand disk levels (templateLine (Text.unifyLineEnds file))
      liftM ((project.compileTemplate template).map .string)) := by
  have hread : readText disk (project.templatePath name) = .ok (Text.unifyLineEnds file) := by
    rw [readText, Disk.readText, hfile]
  rw [callHelper_text, applyHelper, importTemplate, hread, Attempt.lift_ok_bind, map_bind]
  simp only [Attempt.map_lift]

/-- A file without blocks is compiled as one line. -/
theorem callHelper_importHtml_plain
    (hfile : disk.readExactText (project.templatePath name) = .ok file)
    (hline : ¬opening <:+: templateLine (Text.unifyLineEnds file)) :
    project.callHelper disk (levels + 1) Helper.importHtml.name [.string name] =
      some ((project.compileTemplate (templateLine (Text.unifyLineEnds file))).map .string) := by
  have hexpand : project.expand disk (levels + 1) (templateLine (Text.unifyLineEnds file)) =
      some (.ok (templateLine (Text.unifyLineEnds file))) := by
    refine Block.substitute_of_not_closing fun after hsuffix _ => hline ?_
    exact (List.prefix_append opening after).isInfix.trans hsuffix.isInfix
  rw [callHelper_importHtml_eq hfile, hexpand]
  rfl

/-- **What is imported has the tags of its file exactly if the line ends of the file are loose.**  The
file is one literal text without blocks.  If its line ends are loose, no block opens in the line,
either; and as far as none does, the line is what is imported. -/
theorem callHelper_importHtml {value : Json.Value}
    (hfile : disk.readExactText (project.templatePath name) = .ok file)
    (hopening : ¬opening <:+: file) (hplain : ∀ c ∈ file, Literal.isPlain c = true)
    (hcall : project.callHelper disk levels Helper.importHtml.name [.string name] =
      some (.ok value)) :
    (LooseLineEnds file → ¬opening <:+: templateLine (Text.unifyLineEnds file)) ∧
    (¬opening <:+: templateLine (Text.unifyLineEnds file) →
      value = .string (project.host.wrap
        ((Tree.ofText (templateLine (Text.unifyLineEnds file))).emit project.host)) ∧
      (tags (templateLine (Text.unifyLineEnds file)) = tags file ↔ LooseLineEnds file)) := by
  have hone := templateLine_unifyLineEnds file
  constructor
  · intro hloose
    rw [hone]
    exact Markup.Reading.not_opening_infix_oneLine hloose hopening
  · intro hline
    have hcompiled : (project.compileTemplate (templateLine (Text.unifyLineEnds file))).map .string =
        .ok value := by
      cases levels with
      | zero =>
          rw [callHelper_importHtml_eq hfile] at hcall
          cases hcall
      | succ levels =>
          rw [callHelper_importHtml_plain hfile hline] at hcall
          exact Option.some.inj hcall
    have hplain' : ∀ c ∈ templateLine (Text.unifyLineEnds file), Literal.isPlain c = true := by
      intro c hc
      rw [hone] at hc
      exact hplain c ((Text.oneLine_sublist true file).subset hc)
    cases hcompile : Template.compileElement project.host
        (templateLine (Text.unifyLineEnds file)) with
    | error rejection =>
        rw [compileTemplate, hcompile] at hcompiled
        cases hcompiled
    | ok code =>
        rw [compileTemplate, hcompile] at hcompiled
        obtain ⟨hclosed, hcode⟩ := Template.compileElement_plain hplain' hcompile
        cases hcompiled
        refine ⟨by rw [hcode], ?_⟩
        rw [hone] at hclosed ⊢
        exact ⟨Markup.loose_of_tags_eq hclosed, Markup.tags_oneLine⟩

/-- A project without data. -/
def coffeeProject : Project :=
  ⟨[], ['.'], .coffeeScript⟩

/-- A disk with one template file. -/
def templateDisk (file : Text) : Disk :=
  ⟨[([], .directory ["src".toList] 0), (["src".toList], .directory ["A.html".toList] 0),
    (["src".toList, "A.html".toList], .file (Utf8.encode file) 0)], [], 0⟩

theorem readExactText_templateDisk (file : Text) :
    (templateDisk file).readExactText (coffeeProject.templatePath ['A']) = .ok file := by
  have hbytes : (templateDisk file).readBytes (coffeeProject.templatePath ['A']) =
      .ok (Utf8.encode file) := rfl
  rw [Disk.readExactText, hbytes]
  simp only [Utf8.decode?_encode]

/-- The line ends of this file stand behind a blank of the tag, before its end, and in text. -/
theorem callHelper_importHtml_loose :
    coffeeProject.callHelper (templateDisk "<a \n  b='c'\n>\n  d\n</a>\n".toList) 1
        Helper.importHtml.name [.string ['A']] =
      some (.ok (.string "(innerHTML: `\"<a b='c'>d</a>\"`)".toList)) ∧
    tags "<a b='c'>d</a>".toList = tags "<a \n  b='c'\n>\n  d\n</a>\n".toList ∧
    LooseLineEnds "<a \n  b='c'\n>\n  d\n</a>\n".toList := by
  have hfile := readExactText_templateDisk "<a \n  b='c'\n>\n  d\n</a>\n".toList
  have hline : templateLine (Text.unifyLineEnds "<a \n  b='c'\n>\n  d\n</a>\n".toList) =
      "<a b='c'>d</a>".toList := by decide
  have hplain : ∀ c ∈ "<a \n  b='c'\n>\n  d\n</a>\n".toList, Literal.isPlain c = true :=
    List.all_eq_true.1 rfl
  have hparse : Template.parse .topLevel "<a b='c'>d</a>".toList =
      .ok (.sequence [.literal "<a b='c'>d</a>".toList]) := by
    cbv
  have hunopened : ¬opening <:+: "<a b='c'>d</a>".toList := by decide
  have hcall : coffeeProject.callHelper (templateDisk "<a \n  b='c'\n>\n  d\n</a>\n".toList) 1
        Helper.importHtml.name [.string ['A']] =
      some (.ok (.string "(innerHTML: `\"<a b='c'>d</a>\"`)".toList)) := by
    rw [callHelper_importHtml_plain hfile (by rw [hline]; exact hunopened), hline, compileTemplate,
      Template.compileElement, Template.compile, hparse]
    rfl
  have htags : tags "<a b='c'>d</a>".toList = tags "<a \n  b='c'\n>\n  d\n</a>\n".toList := by
    decide
  have himport := (callHelper_importHtml hfile (by decide) hplain hcall).2
  rw [hline] at himport
  exact ⟨hcall, htags, (himport hunopened).2.1 htags⟩

/-- **An import may change the tags of its file**: a line break alone between a name and an item is
dropped, and joins them. -/
theorem not_callHelper_importHtml :
    ¬∀ (project : Project) (disk : Disk) (levels : Nat) (name file line : Text),
      disk.readExactText (project.templatePath name) = .ok file →
      ¬opening <:+: file → (∀ c ∈ file, Literal.isPlain c = true) →
      project.callHelper disk levels Helper.importHtml.name [.string name] =
        some (.ok (.string (project.host.wrap ((Tree.ofText line).emit project.host)))) →
      tags line = tags file := by
  intro h
  have hfile := readExactText_templateDisk "<a\nb>".toList
  have hline : templateLine (Text.unifyLineEnds "<a\nb>".toList) = "<ab>".toList := by decide
  have hunopened : ¬opening <:+: "<ab>".toList := by decide
  have hparse : Template.parse .topLevel "<ab>".toList =
      .ok (.sequence [.literal "<ab>".toList]) := by
    cbv
  have hcall : coffeeProject.callHelper (templateDisk "<a\nb>".toList) 1 Helper.importHtml.name
        [.string ['A']] =
      some (.ok (.string (coffeeProject.host.wrap
        ((Tree.ofText "<ab>".toList).emit coffeeProject.host)))) := by
    rw [callHelper_importHtml_plain hfile (by rw [hline]; exact hunopened), hline, compileTemplate,
      Template.compileElement, Template.compile, hparse]
    rfl
  have htags := h coffeeProject _ 1 ['A'] _ "<ab>".toList hfile (by decide) (List.all_eq_true.1 rfl)
    hcall
  exact absurd htags (by decide)

end Project

end SafeTemplate
