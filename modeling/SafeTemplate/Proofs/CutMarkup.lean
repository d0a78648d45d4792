/-
**Where a template is cut.**

A placeholder that inserts nothing should not matter for the markup around it.  It does: it cuts a
literal text in two, and the markup of each half is erased by itself.  The second pass runs once
over a text, so what it has joined it does not look at again.  In `<a b=''c d>` it drops ` b=''` and
joins `<a` with `c`; the ` d` that follows could be dropped only by another run, and a cut behind
`c` gives one.

This is the only way to tell a text from its halves.  A text is *separated* if a name that stands
right behind the closing quote of a value runs up to `>`, so that nothing is left to drop behind it.
Whatever is accepted in one piece is separated, and a separated text leaves open what its halves
leave open.

Main definitions: `Markup.nameEnds`, `Markup.Position.separated`.

Main results:

* `Markup.fits_dropAttributes` — dropping attributes keeps a text separated;
* `Markup.eraseAttributes_append_of_separated`, `Markup.leftOpen_append_of_separated` — in a
  separated text the passes may stop at any place and go on there;
* `Markup.separated_of_closed` — **what is closed in one piece is separated**;
* `Template.parse_cut_iff` — **a template is accepted in one piece exactly if it is separated and
  accepted when it is cut**, and `Template.not_parse_cut` — not every template that is accepted when
  cut is accepted in one piece.
-/

import SafeTemplate.Proofs.Grammar
import SafeTemplate.Proofs.Seam

set_option autoImplicit false

namespace SafeTemplate

namespace Markup

/-! ### Attributes at a cut -/

/-- Dropping attributes may stop anywhere and go on there. -/
theorem dropAttributes_dropAttributes_append (s t : Text) :
    dropAttributes (dropAttributes s ++ t) = dropAttributes (s ++ t) := by
  fun_induction dropAttributes s with
  | case1 s rest h ih =>
      obtain ⟨name, mark, hne, hname, hmarks, rfl⟩ := finishedAttribute?_eq_some_iff.1 h
      have hsplit : ' ' :: (name ++ (mark ++ rest)) ++ t =
          ' ' :: (name ++ (mark ++ (rest ++ t))) := by simp
      rw [ih, hsplit, dropAttributes_attribute hne hname (hmarks.append t)]
  | case2 s h => rfl

theorem finishedAttribute?_dropAttributes (s : Text) :
    finishedAttribute? (dropAttributes s) = none := by
  fun_induction dropAttributes s with
  | case1 s rest h ih => exact ih
  | case2 s h => exact h

theorem closing_mem_dropAttributes {s : Text} (h : '>' ∈ s) : '>' ∈ dropAttributes s := by
  fun_induction dropAttributes s with
  | case1 s rest hfinished ih =>
      obtain ⟨name, mark, -, hname, hmarks, rfl⟩ := finishedAttribute?_eq_some_iff.1 hfinished
      have hsplit : '>' ∈ (' ' :: (name ++ mark)) ++ rest := by simpa using h
      rcases List.mem_append.1 hsplit with hattribute | hrest
      · exact absurd hattribute (closing_not_mem_attribute hname hmarks)
      · exact ih hrest
  | case2 s hnone => exact h

/-! ### What the second pass keeps -/

@[simp] theorem head?_eraseAttributes (s : Text) : (eraseAttributes s).head? = s.head? := by
  cases s with
  | nil => rw [eraseAttributes]
  | cons c s =>
      rw [eraseAttributes]
      split <;> rfl

theorem closing_mem_eraseAttributes {s : Text} (h : '>' ∈ s) : '>' ∈ eraseAttributes s := by
  induction s using eraseAttributes_induction with
  | nil => cases h
  | tag name s hne hname hs ih =>
      have hs' : '>' ∈ s := by
        have hnot : '>' ∉ name := not_mem_run hname rfl
        simpa [hnot] using h
      rw [eraseAttributes_tag hne hname hs]
      exact List.mem_cons_of_mem _ (List.mem_append_right name (ih (closing_mem_dropAttributes hs')))
  | cons c s hc ih =>
      rw [eraseAttributes_cons hc]
      rcases List.mem_cons.1 h with rfl | hs
      · exact List.mem_cons_self ..
      · exact List.mem_cons_of_mem c (ih hs)

theorem eraseAttributes_run {run : Text} (hrun : '<' ∉ run) (s : Text) :
    eraseAttributes (run ++ s) = run ++ eraseAttributes s := by
  induction run with
  | nil => rfl
  | cons c run ih =>
      rw [List.mem_cons, not_or] at hrun
      rw [List.cons_append, eraseAttributes_cons fun hc => absurd hc.symm hrun.1, ih hrun.2]
      rfl

/-- Up to the first tag the second pass changes nothing. -/
theorem exists_of_eraseAttributes_eq {s run rest : Text} (hrun : '<' ∉ run)
    (h : eraseAttributes s = run ++ rest) :
    ∃ rest', s = run ++ rest' ∧ eraseAttributes rest' = rest := by
  induction run generalizing s with
  | nil => exact ⟨s, rfl, h⟩
  | cons c run ih =>
      rw [List.mem_cons, not_or] at hrun
      have hhead : s.head? = some c := by rw [← head?_eraseAttributes, h]; rfl
      obtain ⟨s, rfl⟩ := List.head?_eq_some_iff.1 hhead
      rw [eraseAttributes_cons fun hc => absurd hc.symm hrun.1] at h
      obtain ⟨rest', rfl, hrest'⟩ := ih hrun.2 (List.cons.inj h).2
      exact ⟨rest', rfl, hrest'⟩

/-- The second pass finishes no attribute. -/
theorem finishedAttribute?_eraseAttributes {s : Text} (h : finishedAttribute? s = none) :
    finishedAttribute? (eraseAttributes s) = none := by
  refine Option.eq_none_iff_forall_ne_some.2 fun rest hrest => ?_
  obtain ⟨name, mark, hne, hname, hmarks, heq⟩ := finishedAttribute?_eq_some_iff.1 hrest
  have hrun : '<' ∉ ' ' :: (name ++ mark) := by
    intro hmem
    rcases List.mem_cons.1 hmem with hspace | hmem
    · exact absurd hspace (by decide)
    · rcases List.mem_append.1 hmem with hname' | hmark
      · exact not_mem_run hname rfl hname'
      · rcases hmarks with ⟨quote, hquote, rfl⟩ | ⟨rfl, -⟩
        · rcases isQuote_iff.1 hquote with rfl | rfl <;> exact absurd hmark (by decide)
        · cases hmark
  have hsplit : eraseAttributes s = ' ' :: (name ++ mark) ++ rest := by simpa using heq
  obtain ⟨rest', rfl, hrest'⟩ := exists_of_eraseAttributes_eq hrun hsplit
  have hmarks' : Marks mark rest' := by
    rcases hmarks with hvalue | ⟨rfl, c, t, rfl, hc⟩
    · exact Or.inl hvalue
    · -- what shows that a bare name is finished is kept
      have hhead : rest'.head? = some c := by rw [← head?_eraseAttributes, hrest']; rfl
      obtain ⟨t', rfl⟩ := List.head?_eq_some_iff.1 hhead
      exact Or.inr ⟨rfl, c, t', rfl, hc⟩
  have hsome : finishedAttribute? (' ' :: (name ++ mark) ++ rest') = some rest' :=
    finishedAttribute?_eq_some_iff.2 ⟨name, mark, hne, hname, hmarks', by simp⟩
  rw [hsome] at h
  cases h

theorem eraseAttributes_wholeTag {slash name : Text} (hslash : slash = [] ∨ slash = ['/'])
    (hne : name ≠ []) (hname : ∀ c ∈ name, isNameChar c = true) (s : Text) :
    eraseAttributes ('<' :: (slash ++ (name ++ '>' :: s))) =
      '<' :: (slash ++ (name ++ '>' :: eraseAttributes s)) := by
  have hclosing : eraseAttributes ('>' :: s) = '>' :: eraseAttributes s :=
    eraseAttributes_cons fun h => absurd h (by decide)
  rcases hslash with rfl | rfl
  · have hnone : dropAttributes ('>' :: s) = '>' :: s := dropAttributes_of_none rfl
    rw [List.nil_append, eraseAttributes_tag hne hname (stop_cons rfl s), hnone, hclosing]
    rfl
  · have hrun : '<' ∉ '/' :: name := by
      intro hmem
      rcases List.mem_cons.1 hmem with h | h
      · exact absurd h (by decide)
      · exact not_mem_run hname rfl h
    have hsplit : ['/'] ++ (name ++ '>' :: s) = '/' :: name ++ '>' :: s := rfl
    have hslash : isNameChar '/' = false := rfl
    rw [hsplit, List.cons_append, eraseAttributes_cons fun _ => stop_cons hslash _,
      ← List.cons_append, eraseAttributes_run hrun, hclosing]
    rfl

/-- The third pass may stop anywhere and go on there, with the second pass before it. -/
theorem eraseClosed_eraseAttributes_append (s t : Text) :
    eraseClosed (eraseAttributes (eraseClosed s ++ t)) = eraseClosed (eraseAttributes (s ++ t)) := by
  fun_induction eraseClosed s with
  | case1 => rfl
  | case2 c s hc ih =>
      have hplain : isDelimiter c = false := by simpa using hc
      have hlt : c ≠ '<' := ne_of_not_isDelimiter hplain rfl
      rw [ih, List.cons_append, eraseAttributes_cons fun h => absurd h hlt, eraseClosed_plain hplain]
  | case3 c s hc rest hwhole ih =>
      obtain ⟨slash, name, hslash, hne, hname, heq⟩ := wholeTag?_eq_some_iff.1 hwhole
      have hsplit : c :: s ++ t = '<' :: (slash ++ (name ++ '>' :: (rest ++ t))) := by
        rw [heq]
        simp
      have htag : wholeTag? ('<' :: (slash ++ (name ++ '>' :: eraseAttributes (rest ++ t)))) =
          some (eraseAttributes (rest ++ t)) :=
        wholeTag?_eq_some_iff.2 ⟨slash, name, hslash, hne, hname, rfl⟩
      rw [ih, hsplit, eraseAttributes_wholeTag hslash hne hname, eraseClosed_tag htag]
  | case4 c s hc hnone => rfl

/-! ### Separated texts -/

/-- Whether no name starts here, or one that runs up to `>`. -/
def nameEnds (s : Text) : Bool :=
  (s.takeWhile isNameChar).isEmpty || (s.dropWhile isNameChar).head? == some '>'

theorem nameEnds_append {name rest : Text} (hname : ∀ c ∈ name, isNameChar c = true)
    (hrest : ∀ c ∈ rest.head?, isNameChar c = false) :
    nameEnds (name ++ rest) = (name.isEmpty || rest.head? == some '>') := by
  rw [nameEnds, takeWhile_append_stop hname hrest, dropWhile_append_stop hname hrest]

theorem nameEnds_of_stop {s : Text} (h : ∀ c ∈ s.head?, isNameChar c = false) :
    nameEnds s = true := by
  have hnil := @nameEnds_append [] s (by simp) h
  simpa using hnil

theorem nameEnds_closing {name : Text} (hname : ∀ c ∈ name, isNameChar c = true) (s : Text) :
    nameEnds (name ++ '>' :: s) = true := by
  rw [nameEnds_append hname (stop_cons rfl s)]
  simp

theorem nameEnds_cases {s : Text} (h : nameEnds s = true) :
    (∀ c ∈ s.head?, isNameChar c = false) ∨
      ∃ name rest, name ≠ [] ∧ (∀ c ∈ name, isNameChar c = true) ∧ s = name ++ '>' :: rest := by
  have hname : ∀ c ∈ s.takeWhile isNameChar, isNameChar c = true :=
    fun c hc => List.all_eq_true.1 List.all_takeWhile c hc
  have hsplit : s.takeWhile isNameChar ++ s.dropWhile isNameChar = s :=
    List.takeWhile_append_dropWhile
  by_cases hnil : s.takeWhile isNameChar = []
  · left
    rw [hnil, List.nil_append] at hsplit
    rw [← hsplit]
    exact head?_dropWhile_stop isNameChar s
  · right
    have hhead : (s.dropWhile isNameChar).head? = some '>' := by simpa [nameEnds, hnil] using h
    obtain ⟨rest, hrest⟩ := List.head?_eq_some_iff.1 hhead
    exact ⟨s.takeWhile isNameChar, rest, hnil, hname, by rw [← hrest, hsplit]⟩

/-- Erasing values does not touch a name outside of them. -/
theorem nameEnds_eraseValues (s : Text) : nameEnds (eraseValues .outside s) = nameEnds s := by
  have hname : ∀ c ∈ s.takeWhile isNameChar, isNameChar c = true :=
    fun c hc => List.all_eq_true.1 List.all_takeWhile c hc
  have hstop := head?_dropWhile_stop isNameChar s
  have hhead : (eraseValues .outside (s.dropWhile isNameChar)).head? =
      (s.dropWhile isNameChar).head? := by
    cases s.dropWhile isNameChar <;> rfl
  have hstop' : ∀ c ∈ (eraseValues .outside (s.dropWhile isNameChar)).head?,
      isNameChar c = false := by
    rw [hhead]
    exact hstop
  have hsplit : s.takeWhile isNameChar ++ s.dropWhile isNameChar = s :=
    List.takeWhile_append_dropWhile
  calc nameEnds (eraseValues .outside s)
      = nameEnds (s.takeWhile isNameChar ++ eraseValues .outside (s.dropWhile isNameChar)) := by
        rw [← eraseValues_outside_append (not_mem_run hname rfl), hsplit]
    _ = nameEnds (s.takeWhile isNameChar ++ s.dropWhile isNameChar) := by
        rw [nameEnds_append hname hstop', nameEnds_append hname hstop, hhead]
    _ = nameEnds s := by rw [hsplit]

namespace Position

/-- Whether a character is the quote that closes the value it stands in. -/
def closes (position : Position) (c : Char) : Bool :=
  match position with
  | value quote => c == quote.val
  | _ => false

/-- Whether every name that stands right behind the closing quote of a value runs up to `>`. -/
def separated (position : Position) : Text → Bool
  | [] => true
  | c :: s => (!position.closes c || nameEnds s) && (position.next c).separated s

theorem separated_cons (position : Position) (c : Char) (s : Text) :
    position.separated (c :: s) =
      ((!position.closes c || nameEnds s) && (position.next c).separated s) := rfl

theorem follow?_cons_ne_none {position : Position} {c : Char} {s : Text}
    (h : position.follow? (c :: s) ≠ none) :
    position.expects c = true ∧ (position.next c).follow? s ≠ none := by
  rw [follow?_cons] at h
  split at h
  · next hexpects => exact ⟨hexpects, h⟩
  · exact absurd rfl h

theorem separated_tag_name {name : Text} (h : ∀ c ∈ name, isAttributeChar c = true) (s : Text) :
    tag.separated (name ++ s) = tag.separated s := by
  induction name with
  | nil => rfl
  | cons c name ih =>
      have hc := h c (List.mem_cons_self ..)
      have hnext : tag.next c = tag := by
        rw [next, if_neg (ne_of_kind hc rfl), if_neg (ne_of_kind hc rfl)]
      rw [List.cons_append, separated_cons, hnext, ih fun d hd => h d (List.mem_cons_of_mem c hd)]
      rfl

theorem separated_text_cons {c : Char} (h : c ≠ '<') (s : Text) :
    text.separated (c :: s) = text.separated s := by
  rw [separated_cons, next, if_neg h]
  rfl

/-- A whole tag leads back to text. -/
theorem separated_wholeTag {slash name : Text} (hslash : slash = [] ∨ slash = ['/'])
    (hname : ∀ c ∈ name, isNameChar c = true) (s : Text) :
    text.separated ('<' :: (slash ++ (name ++ '>' :: s))) = text.separated s := by
  have hattribute : ∀ c ∈ name, isAttributeChar c = true :=
    fun c hc => isAttributeChar_of_isNameChar (hname c hc)
  have hopen : text.separated ('<' :: (slash ++ (name ++ '>' :: s))) =
      tag.separated (name ++ '>' :: s) := by
    rcases hslash with rfl | rfl <;> rfl
  rw [hopen, separated_tag_name hattribute]
  rfl

/-- Erasing values keeps a text separated. -/
theorem separated_eraseValues {position : Position} {scan : ValueScan} (h : position.Agrees scan)
    {s : Text} (hfollow : position.follow? s ≠ none) :
    position.separated (eraseValues scan s) = position.separated s := by
  induction s generalizing position scan with
  | nil => rfl
  | cons c s ih =>
      obtain ⟨hexpects, hrest⟩ := follow?_cons_ne_none hfollow
      by_cases hdrop : scan = .inside ∧ (!isDelimiter c) = true
      · -- only a value agrees with the inside of a value, and it stays there
        have hdelimiter : isDelimiter c = false := by simpa using hdrop.2
        obtain ⟨quote, rfl⟩ := h.exists_value hdrop.1
        have hne : c ≠ quote.val :=
          ne_of_not_isDelimiter hdelimiter (isDelimiter_of_isQuote quote.property)
        have hnext : (value quote).next c = value quote := if_neg hne
        have hcloses : (value quote).closes c = false := by simpa [closes] using hne
        rw [hnext] at hrest
        rw [eraseValues, if_pos hdrop, separated_cons, hnext, hcloses]
        exact ih rfl hrest
      · rw [eraseValues, if_neg hdrop, separated_cons, separated_cons, ih (h.next hexpects) hrest]
        cases hcloses : position.closes c with
        | false => rfl
        | true =>
            -- a closing quote ends the value, so a name behind it is outside of values
            have hscan : scan.next c = .outside := by
              cases position with
              | value quote =>
                  obtain rfl : scan = .inside := h
                  obtain rfl : c = quote.val := by simpa [closes] using hcloses
                  exact if_pos (isDelimiter_of_isQuote quote.property)
              | _ => cases hcloses
            rw [hscan, nameEnds_eraseValues]

/-- Inside a tag, the next tag is behind a `>`. -/
theorem closing_mem_of_bracket_mem {position : Position} (hposition : position ≠ text) {s t : Text}
    (h : position.follow? (s ++ t) ≠ none) (hmem : '<' ∈ s) : '>' ∈ s := by
  induction s generalizing position with
  | nil => cases hmem
  | cons c s ih =>
      obtain ⟨hexpects, hrest⟩ := follow?_cons_ne_none h
      by_cases hnext : position.next c = text
      · rw [eq_closing_of_next_eq_text hposition hnext]
        exact List.mem_cons_self ..
      · rcases List.mem_cons.1 hmem with rfl | hmem
        · exact absurd (eq_text_of_expects hexpects) hposition
        · exact List.mem_cons_of_mem c (ih hnext hrest hmem)

end Position

open Position (text tag)

/-! ### Separated texts and attributes -/

/-- A text that may stand right behind a closing quote in a separated tag. -/
def Fits (s : Text) : Prop :=
  nameEnds s = true ∧ tag.separated s = true

theorem fits_attribute {name mark rest : Text} (hname : ∀ c ∈ name, isAttributeChar c = true)
    (hmarks : Marks mark rest) : Fits (' ' :: (name ++ (mark ++ rest))) ↔ Fits rest := by
  have hstart : nameEnds (' ' :: (name ++ (mark ++ rest))) = true :=
    nameEnds_of_stop (stop_cons rfl _)
  have hspace : tag.separated (' ' :: (name ++ (mark ++ rest))) = tag.separated (mark ++ rest) :=
    Position.separated_tag_name hname (mark ++ rest)
  rw [Fits, Fits, hstart, hspace]
  rcases hmarks with ⟨quote, hquote, rfl⟩ | ⟨rfl, c, s, rfl, hc⟩
  · have hvalue : tag.separated (['=', quote, quote] ++ rest) =
        (nameEnds rest && tag.separated rest) := by
      rcases isQuote_iff.1 hquote with rfl | rfl <;> rfl
    rw [hvalue]
    simp
  · have hstop : nameEnds (c :: s) = true := by
      rcases hc with rfl | rfl <;> exact nameEnds_of_stop (stop_cons rfl s)
    rw [hstop]
    rfl

/-- Dropping attributes keeps a text separated, and so does putting them back. -/
theorem fits_dropAttributes (s t : Text) : Fits (dropAttributes s ++ t) ↔ Fits (s ++ t) := by
  fun_induction dropAttributes s with
  | case1 s rest h ih =>
      obtain ⟨name, mark, -, hname, hmarks, rfl⟩ := finishedAttribute?_eq_some_iff.1 h
      have hsplit : ' ' :: (name ++ (mark ++ rest)) ++ t =
          ' ' :: (name ++ (mark ++ (rest ++ t))) := by simp
      rw [ih, hsplit, fits_attribute hname (hmarks.append t)]
  | case2 s h => rfl

/-! ### The passes at a cut -/

/-- Behind the attributes of a tag, the second pass has nothing to finish. -/
theorem eraseAttributes_dropAttributes_append {s t : Text} (hnone : finishedAttribute? s = none)
    (hfollow : tag.follow? (s ++ t) ≠ none)
    (h : eraseAttributes (eraseAttributes s ++ t) = eraseAttributes (s ++ t)) :
    eraseAttributes (dropAttributes (eraseAttributes s ++ t)) =
      eraseAttributes (dropAttributes (s ++ t)) := by
  by_cases hmem : '<' ∈ s
  · have hclosing : '>' ∈ s := Position.closing_mem_of_bracket_mem (by simp) hfollow hmem
    have hdrop : dropAttributes (s ++ t) = s ++ t :=
      dropAttributes_of_none (finishedAttribute?_append_of_none hclosing hnone)
    have hdrop' : dropAttributes (eraseAttributes s ++ t) = eraseAttributes s ++ t :=
      dropAttributes_of_none (finishedAttribute?_append_of_none (closing_mem_eraseAttributes hclosing)
        (finishedAttribute?_eraseAttributes hnone))
    rw [hdrop, hdrop', h]
  · rw [eraseAttributes_of_not_mem hmem]

theorem finishedAttribute?_of_head? {s : Text} (h : s.head? ≠ some ' ') :
    finishedAttribute? s = none := by
  refine Option.eq_none_iff_forall_ne_some.2 fun rest hrest => ?_
  obtain ⟨name, mark, -, -, -, rfl⟩ := finishedAttribute?_eq_some_iff.1 hrest
  exact h rfl

/-- A name behind the attributes of a tag joins the name of the tag.  Nothing is left to drop behind
it if it runs up to `>`. -/
theorem eraseAttributes_joined {name more s rest : Text} (hne : name ≠ [])
    (hname : ∀ c ∈ name, isNameChar c = true) (hmore : ∀ c ∈ more, isNameChar c = true)
    (h : eraseAttributes s = eraseAttributes (more ++ '>' :: rest)) :
    eraseAttributes ('<' :: (name ++ s)) = '<' :: (name ++ eraseAttributes s) := by
  have hrun : '<' ∉ more ++ ['>'] := by
    have hmoreRun : '<' ∉ more := not_mem_run hmore rfl
    simpa using hmoreRun
  have hsplit : more ++ '>' :: rest = (more ++ ['>']) ++ rest := by simp
  rw [hsplit, eraseAttributes_run hrun] at h
  obtain ⟨rest', rfl, hrest⟩ := exists_of_eraseAttributes_eq hrun h
  have hjoined : ∀ c ∈ name ++ more, isNameChar c = true := by
    intro c hc
    rcases List.mem_append.1 hc with hc | hc
    · exact hname c hc
    · exact hmore c hc
  have htag := eraseAttributes_wholeTag (Or.inl rfl) (List.append_ne_nil_of_left_ne_nil hne more)
    hjoined rest'
  rw [h, ← hrest]
  simpa using htag

/-- Behind a tag's name and its attributes, the second pass may stop anywhere and go on there. -/
theorem eraseAttributes_tag_append {name s t : Text} (hne : name ≠ [])
    (hname : ∀ c ∈ name, isNameChar c = true) (hends : nameEnds (s ++ t) = true)
    (hnone : finishedAttribute? s = none) (hfollow : tag.follow? (s ++ t) ≠ none)
    (h : eraseAttributes (eraseAttributes s ++ t) = eraseAttributes (s ++ t)) :
    eraseAttributes ('<' :: (name ++ (eraseAttributes s ++ t))) =
      '<' :: (name ++ eraseAttributes (dropAttributes (s ++ t))) := by
  rcases nameEnds_cases hends with hstop | ⟨more, rest, hmoreNe, hmore, hsplit⟩
  · -- the name of the tag ends where it did
    have hstop' : ∀ c ∈ (eraseAttributes s ++ t).head?, isNameChar c = false := by
      rw [List.head?_append, head?_eraseAttributes, ← List.head?_append]
      exact hstop
    rw [eraseAttributes_tag hne hname hstop', eraseAttributes_dropAttributes_append hnone hfollow h]
  · -- the name of the tag goes on at the cut
    have hhead : (s ++ t).head? ≠ some ' ' := by
      obtain ⟨c, more, rfl⟩ := List.exists_cons_of_ne_nil hmoreNe
      rw [hsplit]
      intro hspace
      have hc := hmore c (List.mem_cons_self ..)
      rw [Option.some.inj hspace] at hc
      exact absurd hc (by decide)
    rw [dropAttributes_of_none (finishedAttribute?_of_head? hhead), ← h]
    rw [hsplit] at h
    exact eraseAttributes_joined hne hname hmore h

/-- In a separated text, the second pass may stop anywhere and go on there. -/
theorem eraseAttributes_append_of_separated {position : Position} {s t : Text}
    (hfollow : position.follow? (s ++ t) ≠ none) (hseparated : position.separated (s ++ t) = true) :
    eraseAttributes (eraseAttributes s ++ t) = eraseAttributes (s ++ t) := by
  induction s using eraseAttributes_induction generalizing position with
  | nil =>
      have hnil : eraseAttributes [] = [] := by rw [eraseAttributes]
      rw [hnil]
  | tag name s hne hname hs ih =>
      have hattribute : ∀ c ∈ name, isAttributeChar c = true :=
        fun c hc => isAttributeChar_of_isNameChar (hname c hc)
      have hassoc : '<' :: (name ++ s) ++ t = '<' :: (name ++ (s ++ t)) := by simp
      rw [hassoc] at hfollow hseparated ⊢
      obtain ⟨hexpects, hrest⟩ := Position.follow?_cons_ne_none hfollow
      obtain rfl := Position.eq_text_of_expects hexpects
      have hnext : text.next '<' = tag := rfl
      have hopen : text.separated ('<' :: (name ++ (s ++ t))) = tag.separated (name ++ (s ++ t)) :=
        rfl
      rw [hnext, Position.follow?_tag_name hattribute] at hrest
      rw [hopen, Position.separated_tag_name hattribute] at hseparated
      by_cases hnil : s = []
      · subst hnil
        have hdrop : dropAttributes [] = [] := dropAttributes_of_none rfl
        rw [eraseAttributes_tag hne hname hs, hdrop, eraseAttributes]
        simp
      · have hstop : ∀ c ∈ (s ++ t).head?, isNameChar c = false := by
          obtain ⟨c, s, rfl⟩ := List.exists_cons_of_ne_nil hnil
          exact hs
        obtain ⟨hends, hfits⟩ := (fits_dropAttributes s t).2 ⟨nameEnds_of_stop hstop, hseparated⟩
        have hdropped : tag.follow? (dropAttributes s ++ t) ≠ none := by
          rw [Position.follow?_append, Position.follow?_dropAttributes, ← Position.follow?_append]
          exact hrest
        have hresumed := eraseAttributes_tag_append hne hname hends
          (finishedAttribute?_dropAttributes s) hdropped (ih hdropped hfits)
        rw [eraseAttributes_tag hne hname hs, eraseAttributes_tag hne hname hstop,
          ← dropAttributes_dropAttributes_append, ← hresumed]
        simp
  | cons c s hc ih =>
      obtain ⟨hexpects, hrest⟩ := Position.follow?_cons_ne_none hfollow
      rw [List.cons_append, Position.separated_cons, Bool.and_eq_true] at hseparated
      have hinner := ih hrest hseparated.2
      rw [eraseAttributes_cons hc, List.cons_append, List.cons_append]
      by_cases hnil : s = []
      · subst hnil
        have hempty : eraseAttributes [] = [] := by rw [eraseAttributes]
        rw [hempty]
      · have hstop : c = '<' → ∀ d ∈ (s ++ t).head?, isNameChar d = false := by
          obtain ⟨d, s, rfl⟩ := List.exists_cons_of_ne_nil hnil
          exact hc
        have hstop' : c = '<' → ∀ d ∈ (eraseAttributes s ++ t).head?, isNameChar d = false := by
          rw [List.head?_append, head?_eraseAttributes, ← List.head?_append]
          exact hstop
        rw [eraseAttributes_cons hstop', eraseAttributes_cons hstop, hinner]

/-- The first pass goes on behind what is left open as it does behind the whole text. -/
theorem eraseValues_leftOpen_append {s t : Text} (hfollow : text.follow? (s ++ t) ≠ none) :
    eraseValues .outside (leftOpen s ++ t) =
      leftOpen s ++ eraseValues (ValueScan.outside.run s) t := by
  rw [Position.follow?_append] at hfollow
  obtain ⟨there, hthere⟩ : ∃ there, text.follow? s = some there := by
    cases h : text.follow? s with
    | none =>
        rw [h] at hfollow
        exact absurd rfl hfollow
    | some there => exact ⟨there, rfl⟩
  have hopen : text.follow? (leftOpen s) = some there := (Position.follow?_leftOpen s).trans hthere
  have hscan := Position.agrees_outside.run hthere
  have hscan' := Position.agrees_outside.run hopen
  have hsettled : eraseValues .outside (leftOpen s) = leftOpen s := settled_leftOpen s
  rw [eraseValues_append, hsettled]
  refine congrArg (leftOpen s ++ ·) ?_
  rw [hthere] at hfollow
  cases there with
  | text =>
      -- an `=` in text may be erased, but no quote comes behind it
      have hquote := not_isQuote_of_follow? hfollow
      rw [eraseValues_of_ne_inside hscan hquote, eraseValues_of_ne_inside hscan' hquote]
  | tag => rw [show _ = ValueScan.outside from hscan, show _ = ValueScan.outside from hscan']
  | afterEquals =>
      rw [show _ = ValueScan.afterEquals from hscan, show _ = ValueScan.afterEquals from hscan']
  | value quote => rw [show _ = ValueScan.inside from hscan, show _ = ValueScan.inside from hscan']

/-- **A separated text leaves open what its halves leave open**, one after the other. -/
theorem leftOpen_append_of_separated {s t : Text} (hfollow : text.follow? (s ++ t) ≠ none)
    (hseparated : text.separated (s ++ t) = true) :
    leftOpen (leftOpen s ++ t) = leftOpen (s ++ t) := by
  have hvalues := Position.follow?_eraseValues Position.agrees_outside (s ++ t)
  have hkept := Position.separated_eraseValues Position.agrees_outside hfollow
  rw [eraseValues_append] at hvalues hkept
  calc leftOpen (leftOpen s ++ t)
      = eraseClosed (eraseAttributes (leftOpen s ++ eraseValues (ValueScan.outside.run s) t)) := by
        rw [← eraseValues_leftOpen_append hfollow]
        rfl
    _ = eraseClosed (eraseAttributes (eraseAttributes (eraseValues .outside s) ++
          eraseValues (ValueScan.outside.run s) t)) :=
        eraseClosed_eraseAttributes_append _ _
    _ = eraseClosed (eraseAttributes (eraseValues .outside s ++
          eraseValues (ValueScan.outside.run s) t)) := by
        rw [eraseAttributes_append_of_separated (hvalues ▸ hfollow) (hkept.trans hseparated)]
    _ = leftOpen (s ++ t) := by
        rw [← eraseValues_append]
        rfl

/-! ### Closed texts -/

/-- Behind the start of a name, the name goes on up to the `>` that ends it. -/
theorem exists_more_of_wholeTag? {name s rest : Text} (hne : name ≠ [])
    (hname : ∀ c ∈ name, isNameChar c = true) (h : wholeTag? ('<' :: (name ++ s)) = some rest) :
    ∃ more, (∀ c ∈ more, isNameChar c = true) ∧ s = more ++ '>' :: rest := by
  have hhead : (name ++ s).head? ≠ some '/' := by
    obtain ⟨c, name, rfl⟩ := List.exists_cons_of_ne_nil hne
    intro hslash
    have hc := hname c (List.mem_cons_self ..)
    rw [Option.some.inj hslash] at hc
    exact absurd hc (by decide)
  rw [wholeTag?_name hhead] at h
  obtain ⟨name', -, hname', heq⟩ := afterName?_eq_some_iff.1 h
  rcases List.append_eq_append_iff.1 heq with ⟨more, rfl, hmore⟩ | ⟨more, rfl, hmore⟩
  · exact ⟨more, fun c hc => hname' c (List.mem_append_right name hc), hmore⟩
  · cases more with
    | nil => exact ⟨[], by simp, hmore.symm⟩
    | cons c more =>
        obtain rfl := (List.cons.inj hmore).1
        exact absurd (hname '>' (by simp)) (by decide)

/-- A tag is separated if its attributes are dropped up to a name that ends it, and what follows is
separated. -/
theorem separated_of_dropAttributes {name s more rest : Text}
    (hname : ∀ c ∈ name, isNameChar c = true) (hmore : ∀ c ∈ more, isNameChar c = true)
    (h : dropAttributes s = more ++ '>' :: rest) (hrest : text.separated rest = true) :
    text.separated ('<' :: (name ++ s)) = true := by
  have hfits : Fits (dropAttributes s ++ []) := by
    have hmoreAttribute : ∀ c ∈ more, isAttributeChar c = true :=
      fun c hc => isAttributeChar_of_isNameChar (hmore c hc)
    rw [List.append_nil, h, Fits, nameEnds_closing hmore, Position.separated_tag_name hmoreAttribute]
    exact ⟨rfl, hrest⟩
  have hseparated := ((fits_dropAttributes s []).1 hfits).2
  rw [List.append_nil] at hseparated
  have hopen : text.separated ('<' :: (name ++ s)) = tag.separated (name ++ s) := rfl
  rw [hopen, Position.separated_tag_name fun c hc => isAttributeChar_of_isNameChar (hname c hc)]
  exact hseparated

/-- What is closed and starts with a tag goes on, behind the finished attributes, with the end of the
name and the end of the tag. -/
theorem exists_dropped_of_closed_tag {name s : Text} (hne : name ≠ [])
    (hname : ∀ c ∈ name, isNameChar c = true) (hs : ∀ c ∈ s.head?, isNameChar c = false)
    (h : eraseClosed (eraseAttributes ('<' :: (name ++ s))) = []) :
    ∃ more rest, (∀ c ∈ more, isNameChar c = true) ∧ dropAttributes s = more ++ '>' :: rest ∧
      eraseClosed (eraseAttributes rest) = [] := by
  rw [eraseAttributes_tag hne hname hs] at h
  cases hwhole : wholeTag? ('<' :: (name ++ eraseAttributes (dropAttributes s))) with
  | none =>
      rw [eraseClosed_stuck rfl hwhole] at h
      cases h
  | some rest =>
      rw [eraseClosed_tag hwhole] at h
      obtain ⟨more, hmore, hdropped⟩ := exists_more_of_wholeTag? hne hname hwhole
      have hrun : '<' ∉ more ++ ['>'] := by
        have hmoreRun : '<' ∉ more := not_mem_run hmore rfl
        simpa using hmoreRun
      have hsplit : eraseAttributes (dropAttributes s) = (more ++ ['>']) ++ rest := by
        simpa using hdropped
      obtain ⟨rest', hdrop, rfl⟩ := exists_of_eraseAttributes_eq hrun hsplit
      exact ⟨more, rest', hmore, by simpa using hdrop, h⟩

/-- What is closed and starts with a tag goes on behind it with something closed, and it is
separated if that is. -/
theorem exists_rest_of_closed_tag {name s : Text} (hne : name ≠ [])
    (hname : ∀ c ∈ name, isNameChar c = true) (hs : ∀ c ∈ s.head?, isNameChar c = false)
    (h : eraseClosed (eraseAttributes ('<' :: (name ++ s))) = []) :
    ∃ rest, rest.length < s.length ∧ eraseClosed (eraseAttributes rest) = [] ∧
      (text.separated rest = true → text.separated ('<' :: (name ++ s)) = true) := by
  obtain ⟨more, rest, hmore, hdrop, hrest⟩ := exists_dropped_of_closed_tag hne hname hs h
  have hlength := length_dropAttributes_le s
  rw [hdrop] at hlength
  simp only [List.length_append, List.length_cons] at hlength
  exact ⟨rest, by omega, hrest, separated_of_dropAttributes hname hmore hdrop⟩

/-- What is closed and starts with a `<` without a name behind it starts with a tag that ends
something. -/
theorem exists_of_closed_endTag {s : Text} (hs : ∀ c ∈ s.head?, isNameChar c = false)
    (h : eraseClosed (eraseAttributes ('<' :: s)) = []) :
    ∃ slash name rest, (slash = [] ∨ slash = ['/']) ∧ name ≠ [] ∧
      (∀ c ∈ name, isNameChar c = true) ∧ s = slash ++ (name ++ '>' :: rest) ∧
        eraseClosed (eraseAttributes rest) = [] := by
  rw [eraseAttributes_cons fun _ => hs] at h
  cases hwhole : wholeTag? ('<' :: eraseAttributes s) with
  | none =>
      rw [eraseClosed_stuck rfl hwhole] at h
      cases h
  | some rest =>
      rw [eraseClosed_tag hwhole] at h
      obtain ⟨slash, name, hslash, hne, hname, heq⟩ := wholeTag?_eq_some_iff.1 hwhole
      have hrun : '<' ∉ slash ++ (name ++ ['>']) := by
        have hnameRun : '<' ∉ name := not_mem_run hname rfl
        rcases hslash with rfl | rfl <;> simpa using hnameRun
      have hsplit : eraseAttributes s = (slash ++ (name ++ ['>'])) ++ rest := by
        simpa using (List.cons.inj heq).2
      obtain ⟨rest', rfl, rfl⟩ := exists_of_eraseAttributes_eq hrun hsplit
      exact ⟨slash, name, rest', hslash, hne, hname, by simp, h⟩

/-- What is closed and starts with a `<` without a name goes on behind a tag that ends something. -/
theorem exists_rest_of_closed_endTag {s : Text} (hs : ∀ c ∈ s.head?, isNameChar c = false)
    (h : eraseClosed (eraseAttributes ('<' :: s)) = []) :
    ∃ rest, rest.length < s.length ∧ eraseClosed (eraseAttributes rest) = [] ∧
      (text.separated rest = true → text.separated ('<' :: s) = true) := by
  obtain ⟨slash, name, rest, hslash, -, hname, rfl, hrest⟩ := exists_of_closed_endTag hs h
  refine ⟨rest, by simp only [List.length_append, List.length_cons]; omega, hrest, fun hseparated => ?_⟩
  rw [Position.separated_wholeTag hslash hname rest]
  exact hseparated

/-- **What is closed in one piece is separated.** -/
theorem separated_of_closed {s : Text} (h : eraseClosed (eraseAttributes s) = []) :
    text.separated s = true := by
  -- closed texts go on behind a tag and its attributes, so the induction is on the length
  induction hlength : s.length using Nat.strong_induction_on generalizing s with
  | _ n ih =>
    subst hlength
    cases s with
    | nil => rfl
    | cons c s =>
        by_cases hlt : c = '<'
        · subst hlt
          have hstop := head?_dropWhile_stop isNameChar s
          have hsplit : s.takeWhile isNameChar ++ s.dropWhile isNameChar = s :=
            List.takeWhile_append_dropWhile
          by_cases hnil : s.takeWhile isNameChar = []
          · rw [hnil, List.nil_append] at hsplit
            rw [hsplit] at hstop
            obtain ⟨rest, hshorter, hclosed, hback⟩ := exists_rest_of_closed_endTag hstop h
            exact hback (ih rest.length (Nat.lt_succ_of_lt hshorter) hclosed rfl)
          · have hname : ∀ c ∈ s.takeWhile isNameChar, isNameChar c = true :=
              fun c hc => List.all_eq_true.1 List.all_takeWhile c hc
            have hle := (List.dropWhile_suffix (l := s) isNameChar).length_le
            rw [← hsplit] at h
            obtain ⟨rest, hshorter, hclosed, hback⟩ := exists_rest_of_closed_tag hnil hname hstop h
            rw [hsplit] at hback
            exact hback (ih rest.length (Nat.lt_succ_of_le (hshorter.le.trans hle)) hclosed rfl)
        · rw [eraseAttributes_cons fun hc => absurd hc hlt] at h
          rw [Position.separated_text_cons hlt]
          refine ih s.length (Nat.lt_succ_self _) ?_ rfl
          by_cases hplain : isDelimiter c = false
          · rwa [eraseClosed_plain hplain] at h
          · rw [eraseClosed_stuck (by simpa using hplain) (wholeTag?_of_ne hlt _)] at h
            cases h

/-- **A text is closed exactly if it is separated and closed when it is cut.** -/
theorem leftOpen_append_eq_nil_iff (s t : Text) :
    leftOpen (s ++ t) = [] ↔ leftOpen (leftOpen s ++ t) = [] ∧ text.separated (s ++ t) = true := by
  constructor
  · intro h
    have hfollow : text.follow? (s ++ t) ≠ none := by
      rw [← Position.follow?_leftOpen, h]
      simp
    have hseparated : text.separated (s ++ t) = true := by
      rw [← Position.separated_eraseValues Position.agrees_outside hfollow]
      exact separated_of_closed h
    exact ⟨(leftOpen_append_of_separated hfollow hseparated).trans h, hseparated⟩
  · rintro ⟨h, hseparated⟩
    have hfollow : text.follow? (s ++ t) ≠ none := by
      have hcut : text.follow? (leftOpen s ++ t) = some text := by
        rw [← Position.follow?_leftOpen, h]
        rfl
      rw [Position.follow?_append, Position.follow?_leftOpen, ← Position.follow?_append] at hcut
      rw [hcut]
      simp
    exact (leftOpen_append_of_separated hfollow hseparated).symm.trans h

end Markup

/-! ### Residues -/

namespace Residue

open Markup

theorem advance_topLevel (literal : Text) : topLevel.advance literal = ⟨leftOpen literal⟩ := by
  by_cases hliteral : literal = []
  · subst hliteral
    simp [topLevel, leftOpen, eraseValues, eraseAttributes, eraseClosed]
  · exact advance_of_ne_nil hliteral topLevel

/-- Advancing over a text leads back to top level exactly if the text is separated and advancing
over its halves does. -/
theorem advance_append_eq_topLevel_iff (literal more : Text) :
    topLevel.advance (literal ++ more) = topLevel ↔
      (topLevel.advance literal).advance more = topLevel ∧
        Position.text.separated (literal ++ more) = true := by
  have htop : ∀ s : Text, Residue.mk s = topLevel ↔ s = [] := fun s => by simp [topLevel]
  by_cases hmore : more = []
  · subst hmore
    have hiff := leftOpen_append_eq_nil_iff literal []
    rw [List.append_nil] at hiff ⊢
    rw [advance_nil, advance_topLevel, htop]
    exact ⟨fun h => ⟨h, (hiff.1 h).2⟩, And.left⟩
  · rw [advance_topLevel, advance_topLevel, advance_of_ne_nil hmore, htop, htop,
      leftOpen_append_eq_nil_iff]

end Residue

/-! ### Templates -/

namespace Source

/-- Whether a template is accepted is known from any source that writes it. -/
theorem exists_parse_iff (limit : Nat) (source : Source) (halternates : source.Alternates)
    (hdepth : source.depth ≤ limit) (residue : Residue) :
    (∃ tree, Template.parseWithin limit residue source.text = .ok tree) ↔
      source.Leads residue residue := by
  constructor
  · rintro ⟨tree, htree⟩
    obtain ⟨source', htext, -, hderives⟩ := Template.parseWithin_eq_ok_iff.1 htree
    have heq : source'.text ++ [] = source.text ++ [] := by rw [htext]
    obtain ⟨rfl, -⟩ := text_unique hderives.alternates halternates Ended.nil Ended.nil heq
    exact hderives.leads
  · intro hleads
    exact ⟨source.tree, Template.parseWithin_eq_ok_iff.2
      ⟨source, rfl, rfl, halternates, hdepth, hleads⟩⟩

/-- A text of plain characters before a source. -/
def afterPlain (s : Text) (h : ∀ c ∈ s, Literal.isPlain c = true) (more : Source) : Source :=
  if hne : s.pmap LiteralUnit.plain h = [] then more
  else literal (s.pmap LiteralUnit.plain h) hne more

section AfterPlain

variable {s : Text} {h : ∀ c ∈ s, Literal.isPlain c = true}

theorem written_plain : Literal.written (s.pmap LiteralUnit.plain h) = s := by
  induction s with
  | nil => rfl
  | cons c s ih => exact congrArg (c :: ·) ih

theorem meaning_plain : Literal.meaning (s.pmap LiteralUnit.plain h) = s := by
  induction s with
  | nil => rfl
  | cons c s ih => exact congrArg (c :: ·) ih

theorem text_afterPlain (more : Source) : (afterPlain s h more).text = s ++ more.text := by
  unfold afterPlain
  split
  · next hnil =>
      obtain rfl : s = [] := by simpa using hnil
      rfl
  · rw [text, written_plain]

theorem depth_afterPlain (more : Source) : (afterPlain s h more).depth = more.depth := by
  unfold afterPlain
  split <;> rfl

theorem Alternates.afterPlain {more : Source} (hmore : more.Alternates)
    (hstart : more.startsLiteral = false) : (afterPlain s h more).Alternates := by
  unfold Source.afterPlain
  split
  · exact hmore
  · exact ⟨hstart, hmore⟩

theorem leads_afterPlain {more : Source} {start stop : Residue} :
    (afterPlain s h more).Leads start stop ↔ more.Leads (start.advance s) stop := by
  unfold afterPlain
  split
  · next hnil =>
      obtain rfl : s = [] := by simpa using hnil
      rfl
  · rw [Leads, meaning_plain]

end AfterPlain

end Source

namespace Template

open Markup (Position)

/-- **A template of plain text is accepted in one piece exactly if it is separated and accepted when
a choice without branches cuts it.** -/
theorem parse_cut_iff (before after : Text) (hbefore : ∀ c ∈ before, Literal.isPlain c = true)
    (hafter : ∀ c ∈ after, Literal.isPlain c = true) (condition : Snippet) :
    (∃ tree, parse .topLevel (before ++ after) = .ok tree) ↔
      (∃ tree, parse .topLevel (before ++ (condition.headed '?' ++ after)) = .ok tree) ∧
        Position.text.separated (before ++ after) = true := by
  have hboth : ∀ c ∈ before ++ after, Literal.isPlain c = true := by
    intro c hc
    rcases List.mem_append.1 hc with hc | hc
    · exact hbefore c hc
    · exact hafter c hc
  let whole := Source.afterPlain (before ++ after) hboth .nil
  let cut := Source.afterPlain before hbefore
    (.choice condition (Source.afterPlain after hafter .nil))
  have hwhole : whole.text = before ++ after := by
    rw [Source.text_afterPlain, Source.text, List.append_nil]
  have hcut : cut.text = before ++ (condition.headed '?' ++ after) := by
    rw [Source.text_afterPlain, Source.text, Source.text_afterPlain, Source.text, List.append_nil]
  have hwholeIff := Source.exists_parse_iff nestingLimit whole
    (Source.Alternates.afterPlain trivial rfl) (by rw [Source.depth_afterPlain]; exact Nat.zero_le _)
    .topLevel
  have hcutIff := Source.exists_parse_iff nestingLimit cut
    (Source.Alternates.afterPlain (Source.Alternates.afterPlain trivial rfl) rfl)
    (by rw [Source.depth_afterPlain, Source.depth, Source.depth_afterPlain]; exact Nat.zero_le _)
    .topLevel
  rw [hwhole, Source.leads_afterPlain] at hwholeIff
  rw [hcut, Source.leads_afterPlain, Source.Leads, Source.leads_afterPlain] at hcutIff
  rw [parse, parse, hwholeIff, hcutIff]
  exact Residue.advance_append_eq_topLevel_iff before after

/-- A name joins the name of the tag at the cut and ends it. -/
theorem parse_cut_iff_joined :
    (∀ c ∈ "<a b=''".toList, Literal.isPlain c = true) ∧
      (∀ c ∈ "c>".toList, Literal.isPlain c = true) ∧
      ∃ tree, parse .topLevel ("<a b=''".toList ++ "c>".toList) = .ok tree := by
  have hbefore : ∀ c ∈ "<a b=''".toList, Literal.isPlain c = true := List.all_eq_true.1 rfl
  have hafter : ∀ c ∈ "c>".toList, Literal.isPlain c = true := List.all_eq_true.1 rfl
  have hcondition : ∀ c ∈ ['x'], Placeholder.Head.isSnippetChar c = true :=
    List.forall_mem_singleton.2 rfl
  have hcut : parse .topLevel ("<a b=''".toList ++ ("?{x}".toList ++ "c>".toList)) =
      .ok (.sequence [.literal "<a b=''".toList, .choice ['x'] .empty .empty,
        .literal "c>".toList]) := by
    cbv
  exact ⟨hbefore, hafter,
    (parse_cut_iff _ _ hbefore hafter ⟨['x'], hcondition⟩).2 ⟨⟨_, hcut⟩, by decide⟩⟩

/-- **A cut may mend a template**: behind the name that has joined the name of the tag, an attribute
is dropped only where the text is cut. -/
theorem not_parse_cut :
    ¬∀ before after : Text, (∀ c ∈ before, Literal.isPlain c = true) →
      (∀ c ∈ after, Literal.isPlain c = true) →
        ((∃ tree, parse .topLevel (before ++ after) = .ok tree) ↔
          ∃ tree, parse .topLevel (before ++ ("?{c}".toList ++ after)) = .ok tree) := by
  intro h
  have hcut : parse .topLevel ("<a b=''c".toList ++ ("?{c}".toList ++ " d>".toList)) =
      .ok (.sequence [.literal "<a b=''c".toList, .choice ['c'] .empty .empty,
        .literal " d>".toList]) := by
    cbv
  have hwhole : parse .topLevel ("<a b=''c".toList ++ " d>".toList) =
      .error ⟨.leftOpen ⟨"<ac d>".toList⟩, ["<a b=''c d>".toList]⟩ := by
    cbv
  obtain ⟨tree, htree⟩ := (h _ _ (List.all_eq_true.1 rfl) (List.all_eq_true.1 rfl)).2 ⟨_, hcut⟩
  rw [hwhole] at htree
  cases htree

end Template

end SafeTemplate
