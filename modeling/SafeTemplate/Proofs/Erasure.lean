/-
**What the erasing passes take away.**

Each step of the second pass takes an attribute that is finished, and each step of the third a whole
tag; both are given here by what stands in the text, not by how it is looked for.  A text is *settled*
if the first pass takes nothing from it; the other passes leave a settled text settled, so every
residue is.

Main definitions: `Markup.Marks`, `Markup.Settled`, `Markup.leftOpen`.

Main results:

* `Markup.finishedAttribute?_eq_some_iff`, `Markup.wholeTag?_eq_some_iff` — what one step takes;
* `Markup.eraseAttributes_tag`, `Markup.eraseAttributes_cons`, `Markup.eraseClosed_plain`,
  `Markup.eraseClosed_tag` — the passes one step at a time;
* `Markup.Settled.of_suffix`, `Residue.settled_advance` — **residues are settled**.
-/

import Mathlib
import SafeTemplate.Markup.Residue

set_option autoImplicit false

namespace SafeTemplate

namespace Markup

/-! ### Characters -/

theorem isQuote_iff {c : Char} : isQuote c = true ↔ c = '\'' ∨ c = '"' := by
  simp [isQuote]

theorem isDelimiter_iff {c : Char} :
    isDelimiter c = true ↔ isQuote c = true ∨ c = '<' ∨ c = '>' := by
  simp [isDelimiter, or_assoc]

theorem isDelimiter_of_isQuote {c : Char} (h : isQuote c = true) : isDelimiter c = true :=
  isDelimiter_iff.2 (Or.inl h)

theorem not_isQuote_of_not_isDelimiter {c : Char} (h : isDelimiter c = false) :
    isQuote c = false := by
  cases hc : isQuote c with
  | false => rfl
  | true =>
      rw [isDelimiter_of_isQuote hc] at h
      cases h

/-- Characters of different kinds are different. -/
theorem ne_of_kind {p : Char → Bool} {c d : Char} (hc : p c = true) (hd : p d = false) : c ≠ d := by
  rintro rfl
  rw [hc] at hd
  cases hd

theorem ne_of_not_isDelimiter {c d : Char} (hc : isDelimiter c = false)
    (hd : isDelimiter d = true) : c ≠ d :=
  (ne_of_kind hd hc).symm

theorem isAttributeChar_of_isNameChar {c : Char} (h : isNameChar c = true) :
    isAttributeChar c = true := by
  simp [isAttributeChar, h]

/-- The characters of names open and close nothing. -/
theorem not_isDelimiter_of_isAttributeChar {c : Char} (h : isAttributeChar c = true) :
    isDelimiter c = false := by
  cases hc : isDelimiter c with
  | false => rfl
  | true =>
      rw [isDelimiter_iff, isQuote_iff] at hc
      rcases hc with (rfl | rfl) | rfl | rfl <;> exact absurd h (by decide)

section Runs

variable {p : Char → Bool} {run rest : Text}

/-- A run holds no character of another kind. -/
theorem not_mem_run (hrun : ∀ c ∈ run, p c = true) {d : Char} (hd : p d = false) : d ∉ run :=
  fun hmem => ne_of_kind (hrun d hmem) hd rfl

/-- A run stops at a character of another kind. -/
theorem stop_cons {c : Char} (h : p c = false) (s : Text) : ∀ d ∈ (c :: s).head?, p d = false := by
  intro d hd
  obtain rfl := Option.some.inj hd
  exact h

theorem takeWhile_append_stop (hrun : ∀ c ∈ run, p c = true)
    (hrest : ∀ c ∈ rest.head?, p c = false) :
    (run ++ rest).takeWhile p = run := by
  rw [List.takeWhile_append_of_pos hrun]
  cases rest with
  | nil => simp
  | cons c rest => simp [hrest c rfl]

theorem dropWhile_append_stop (hrun : ∀ c ∈ run, p c = true)
    (hrest : ∀ c ∈ rest.head?, p c = false) :
    (run ++ rest).dropWhile p = rest := by
  rw [List.dropWhile_append_of_pos hrun]
  cases rest with
  | nil => rfl
  | cons c rest => simp [hrest c rfl]

theorem head?_dropWhile_stop (p : Char → Bool) (s : Text) :
    ∀ c ∈ (s.dropWhile p).head?, p c = false := by
  intro c hc
  induction s with
  | nil => simp at hc
  | cons d s ih =>
      cases hd : p d with
      | true => exact ih (by simpa [hd] using hc)
      | false =>
          obtain rfl : d = c := by simpa [hd] using hc
          exact hd

end Runs

/-! ### Finished attributes -/

/-- What shows that an attribute is finished: an empty value, or a space or `>` that comes next. -/
def Marks (mark rest : Text) : Prop :=
  (∃ quote, isQuote quote = true ∧ mark = ['=', quote, quote]) ∨
    (mark = [] ∧ ∃ c s, rest = c :: s ∧ (c = ' ' ∨ c = '>'))

theorem Marks.stop {mark rest : Text} (h : Marks mark rest) :
    ∀ c ∈ (mark ++ rest).head?, isAttributeChar c = false := by
  rcases h with ⟨quote, -, rfl⟩ | ⟨rfl, d, s, rfl, rfl | rfl⟩
  · exact stop_cons rfl _
  · exact stop_cons rfl s
  · exact stop_cons rfl s

theorem finishedAttribute?_eq_some_iff {s rest : Text} :
    finishedAttribute? s = some rest ↔
      ∃ name mark, name ≠ [] ∧ (∀ c ∈ name, isAttributeChar c = true) ∧ Marks mark rest ∧
        s = ' ' :: (name ++ (mark ++ rest)) := by
  constructor
  · intro h
    unfold finishedAttribute? at h
    split at h
    · next s =>
        have hname : ∀ c ∈ s.takeWhile isAttributeChar, isAttributeChar c = true :=
          fun c hc => List.all_eq_true.1 List.all_takeWhile c hc
        have hcut : ∀ t, s.dropWhile isAttributeChar = t →
            ' ' :: s = ' ' :: (s.takeWhile isAttributeChar ++ t) := by
          rintro t rfl
          rw [List.takeWhile_append_dropWhile]
        split at h
        · cases h
        · next hempty =>
            have hne : s.takeWhile isAttributeChar ≠ [] :=
              fun hnil => hempty (List.isEmpty_iff.2 hnil)
            refine ⟨s.takeWhile isAttributeChar, ?_⟩
            split at h
            · next hdrop =>
                cases h
                exact ⟨['=', '\'', '\''], hne, hname, Or.inl ⟨'\'', rfl, rfl⟩,
                  hcut _ hdrop⟩
            · next hdrop =>
                cases h
                exact ⟨['=', '"', '"'], hne, hname, Or.inl ⟨'"', rfl, rfl⟩,
                  hcut _ hdrop⟩
            · next rest hdrop =>
                cases h
                exact ⟨[], hne, hname, Or.inr ⟨rfl, ' ', rest, rfl, Or.inl rfl⟩,
                  hcut _ hdrop⟩
            · next rest hdrop =>
                cases h
                exact ⟨[], hne, hname, Or.inr ⟨rfl, '>', rest, rfl, Or.inr rfl⟩,
                  hcut _ hdrop⟩
            · cases h
    · cases h
  · rintro ⟨name, mark, hne, hname, hmarks, rfl⟩
    have htake := takeWhile_append_stop hname hmarks.stop
    have hdrop := dropWhile_append_stop hname hmarks.stop
    have hempty : name.isEmpty = false := by simpa using hne
    simp only [finishedAttribute?, htake, hdrop, hempty]
    rcases hmarks with ⟨quote, hquote, rfl⟩ | ⟨rfl, d, s, rfl, rfl | rfl⟩
    · rcases isQuote_iff.1 hquote with rfl | rfl <;> rfl
    · rfl
    · rfl

theorem dropAttributes_of_finished {s rest : Text} (h : finishedAttribute? s = some rest) :
    dropAttributes s = dropAttributes rest := by
  rw [dropAttributes]
  split
  · next rest' h' =>
      rw [h] at h'
      rw [Option.some.inj h']
  · next h' =>
      rw [h] at h'
      cases h'

theorem dropAttributes_of_none {s : Text} (h : finishedAttribute? s = none) :
    dropAttributes s = s := by
  rw [dropAttributes]
  split
  · next rest h' =>
      rw [h] at h'
      cases h'
  · rfl

/-- One finished attribute after the other is dropped. -/
theorem dropAttributes_attribute {name mark rest : Text} (hne : name ≠ [])
    (hname : ∀ c ∈ name, isAttributeChar c = true) (hmarks : Marks mark rest) :
    dropAttributes (' ' :: (name ++ (mark ++ rest))) = dropAttributes rest :=
  dropAttributes_of_finished
    (finishedAttribute?_eq_some_iff.2 ⟨name, mark, hne, hname, hmarks, rfl⟩)

theorem dropAttributes_suffix (s : Text) : dropAttributes s <:+ s := by
  fun_induction dropAttributes s with
  | case1 s rest h ih =>
      obtain ⟨name, mark, -, -, -, rfl⟩ := finishedAttribute?_eq_some_iff.1 h
      exact ih.trans ⟨' ' :: (name ++ mark), by simp⟩
  | case2 s h => exact List.suffix_refl s

/-! ### One step of the second pass -/

/-- After the name of a tag, finished attributes are dropped. -/
theorem eraseAttributes_tag {name : Text} (hne : name ≠ []) (hname : ∀ c ∈ name, isNameChar c = true)
    {s : Text} (hs : ∀ c ∈ s.head?, isNameChar c = false) :
    eraseAttributes ('<' :: (name ++ s)) = '<' :: (name ++ eraseAttributes (dropAttributes s)) := by
  rw [eraseAttributes]
  simp [takeWhile_append_stop hname hs, dropWhile_append_stop hname hs, hne]

/-- Any other character stays. -/
theorem eraseAttributes_cons {c : Char} {s : Text}
    (h : c = '<' → ∀ d ∈ s.head?, isNameChar d = false) :
    eraseAttributes (c :: s) = c :: eraseAttributes s := by
  rw [eraseAttributes]
  split
  · next htag =>
      have hnone : s.takeWhile isNameChar = [] := by
        simpa using @takeWhile_append_stop isNameChar [] s (by simp) (h htag.1)
      simp [hnone] at htag
  · rfl

/-- Induction along the second pass: over a tag with its finished attributes, or over one character. -/
theorem eraseAttributes_induction {motive : Text → Prop} (nil : motive [])
    (tag : ∀ name s, name ≠ [] → (∀ c ∈ name, isNameChar c = true) →
      (∀ c ∈ s.head?, isNameChar c = false) → motive (dropAttributes s) →
        motive ('<' :: (name ++ s)))
    (cons : ∀ c s, (c = '<' → ∀ d ∈ s.head?, isNameChar d = false) → motive s → motive (c :: s))
    (s : Text) : motive s := by
  fun_induction eraseAttributes s with
  | case1 => exact nil
  | case2 c s name h ih =>
      obtain ⟨rfl, hne⟩ := h
      have hname : ∀ c ∈ s.takeWhile isNameChar, isNameChar c = true :=
        fun c hc => List.all_eq_true.1 List.all_takeWhile c hc
      have hnonempty : s.takeWhile isNameChar ≠ [] := by
        rintro hnil
        simp [name, hnil] at hne
      have htag := tag (s.takeWhile isNameChar) (s.dropWhile isNameChar) hnonempty hname
        (head?_dropWhile_stop isNameChar s) ih
      rwa [List.takeWhile_append_dropWhile] at htag
  | case3 c s name h ih =>
      refine cons c s ?_ ih
      intro hc d hd
      cases s with
      | nil => simp at hd
      | cons e s =>
          obtain rfl : e = d := by simpa using hd
          cases he : isNameChar e with
          | true => exact absurd ⟨hc, by simp [name, he]⟩ h
          | false => rfl

/-- Without a `<` there is nothing to drop. -/
theorem eraseAttributes_of_not_mem {s : Text} (h : '<' ∉ s) : eraseAttributes s = s := by
  induction s with
  | nil => rw [eraseAttributes]
  | cons c s ih =>
      rw [List.mem_cons, not_or] at h
      rw [eraseAttributes_cons fun hc => absurd hc.symm h.1, ih h.2]

/-! ### Whole tags -/

/-- The rest of a tag without attributes, behind `<` or `</`. -/
def afterName? (s : Text) : Option Text :=
  if (s.takeWhile isNameChar).isEmpty then none
  else
    match s.dropWhile isNameChar with
    | '>' :: rest => some rest
    | _ => none

theorem wholeTag?_slash (s : Text) : wholeTag? ('<' :: '/' :: s) = afterName? s := rfl

theorem wholeTag?_name {s : Text} (h : s.head? ≠ some '/') :
    wholeTag? ('<' :: s) = afterName? s := by
  cases s with
  | nil => rfl
  | cons c s =>
      have hc : c ≠ '/' := by simpa using h
      rw [wholeTag?]
      · rfl
      · intro rest heq
        exact hc (List.cons.inj heq).1

theorem wholeTag?_of_ne {c : Char} (h : c ≠ '<') (s : Text) : wholeTag? (c :: s) = none := by
  unfold wholeTag?
  split
  · next heq => exact absurd (List.cons.inj heq).1 h
  · rfl

theorem afterName?_eq_some_iff {s rest : Text} :
    afterName? s = some rest ↔
      ∃ name, name ≠ [] ∧ (∀ c ∈ name, isNameChar c = true) ∧ s = name ++ '>' :: rest := by
  constructor
  · intro h
    unfold afterName? at h
    split at h
    · cases h
    · next hempty =>
        split at h
        · next rest hdrop =>
            cases h
            refine ⟨s.takeWhile isNameChar, fun hnil => hempty (List.isEmpty_iff.2 hnil),
              fun c hc => List.all_eq_true.1 List.all_takeWhile c hc, ?_⟩
            rw [← hdrop, List.takeWhile_append_dropWhile]
        · cases h
  · rintro ⟨name, hne, hname, rfl⟩
    have hstop : ∀ c ∈ ('>' :: rest).head?, isNameChar c = false := stop_cons rfl rest
    rw [afterName?, takeWhile_append_stop hname hstop, dropWhile_append_stop hname hstop]
    simp [hne]

/-- A whole tag is `<` or `</`, a name, and `>`. -/
theorem wholeTag?_eq_some_iff {s rest : Text} :
    wholeTag? s = some rest ↔
      ∃ slash name, (slash = [] ∨ slash = ['/']) ∧ name ≠ [] ∧
        (∀ c ∈ name, isNameChar c = true) ∧ s = '<' :: (slash ++ (name ++ '>' :: rest)) := by
  constructor
  · intro h
    match s with
    | [] => cases h
    | c :: s =>
        obtain rfl : c = '<' := by
          refine Classical.byContradiction fun hc => ?_
          rw [wholeTag?_of_ne hc] at h
          cases h
        by_cases hslash : s.head? = some '/'
        · obtain ⟨t, rfl⟩ : ∃ t, s = '/' :: t := by
            cases s <;> simp_all
          rw [wholeTag?_slash] at h
          obtain ⟨name, hne, hname, rfl⟩ := afterName?_eq_some_iff.1 h
          exact ⟨['/'], name, Or.inr rfl, hne, hname, rfl⟩
        · rw [wholeTag?_name hslash] at h
          obtain ⟨name, hne, hname, rfl⟩ := afterName?_eq_some_iff.1 h
          exact ⟨[], name, Or.inl rfl, hne, hname, rfl⟩
  · rintro ⟨slash, name, rfl | rfl, hne, hname, rfl⟩
    · have hhead : (name ++ '>' :: rest).head? ≠ some '/' := by
        intro h
        obtain ⟨c, name, rfl⟩ := List.exists_cons_of_ne_nil hne
        obtain rfl : c = '/' := by simpa using h
        exact absurd (hname '/' (List.mem_cons_self ..)) (by decide)
      rw [List.nil_append, wholeTag?_name hhead]
      exact afterName?_eq_some_iff.2 ⟨name, hne, hname, rfl⟩
    · rw [List.singleton_append, wholeTag?_slash]
      exact afterName?_eq_some_iff.2 ⟨name, hne, hname, rfl⟩

theorem eraseClosed_plain {c : Char} (h : isDelimiter c = false) (s : Text) :
    eraseClosed (c :: s) = eraseClosed s := by
  rw [eraseClosed]
  simp [h]

theorem eraseClosed_tag {s rest : Text} (h : wholeTag? s = some rest) :
    eraseClosed s = eraseClosed rest := by
  obtain ⟨slash, name, -, -, -, rfl⟩ := wholeTag?_eq_some_iff.1 h
  have hlt : isDelimiter '<' = true := rfl
  rw [eraseClosed]
  split
  · simp_all
  · split
    · next rest' h' =>
        rw [h] at h'
        rw [Option.some.inj h']
    · next h' =>
        rw [h] at h'
        cases h'

theorem eraseClosed_stuck {c : Char} {s : Text} (hc : isDelimiter c = true)
    (h : wholeTag? (c :: s) = none) : eraseClosed (c :: s) = c :: s := by
  rw [eraseClosed]
  split
  · simp_all
  · split
    · next rest h' =>
        rw [h] at h'
        cases h'
    · rfl

/-- Without a `>` a tag stays open. -/
theorem eraseClosed_of_not_mem {s : Text} (h : '>' ∉ s) : eraseClosed ('<' :: s) = '<' :: s := by
  refine eraseClosed_stuck rfl (Option.eq_none_iff_forall_ne_some.2 fun rest hrest => ?_)
  obtain ⟨slash, name, -, -, -, heq⟩ := wholeTag?_eq_some_iff.1 hrest
  obtain rfl := (List.cons.inj heq).2
  simp at h

theorem eraseClosed_suffix (s : Text) : eraseClosed s <:+ s := by
  fun_induction eraseClosed s with
  | case1 => exact List.suffix_refl _
  | case2 c s hc ih => exact ih.trans (List.suffix_cons c s)
  | case3 c s hc rest h ih =>
      obtain ⟨slash, name, -, -, -, heq⟩ := wholeTag?_eq_some_iff.1 h
      rw [heq]
      exact ih.trans ⟨'<' :: (slash ++ (name ++ ['>'])), by simp⟩
  | case4 c s hc h => exact List.suffix_refl _

/-! ### Settled texts -/

theorem length_eraseValues_le (scan : ValueScan) (s : Text) :
    (eraseValues scan s).length ≤ s.length := by
  induction s generalizing scan with
  | nil => exact Nat.le_refl _
  | cons c s ih =>
      rw [eraseValues]
      split
      · exact Nat.le_succ_of_le (ih .inside)
      · exact Nat.succ_le_succ (ih (scan.next c))

/-- The first pass takes nothing more from what it has left. -/
theorem eraseValues_eraseValues (scan : ValueScan) (s : Text) :
    eraseValues scan (eraseValues scan s) = eraseValues scan s := by
  induction s generalizing scan with
  | nil => rfl
  | cons c s ih =>
      by_cases hc : scan = .inside ∧ (!isDelimiter c) = true
      · rw [eraseValues, if_pos hc, hc.1]
        exact ih .inside
      · rw [eraseValues, if_neg hc, eraseValues, if_neg hc, ih]

/-- A character that the first pass meets in a text it leaves alone is kept. -/
theorem eraseValues_cons_of_eq {scan : ValueScan} {c : Char} {s : Text}
    (h : eraseValues scan (c :: s) = c :: s) :
    eraseValues (scan.next c) s = s ∧
      ∀ t, eraseValues scan (c :: t) = c :: eraseValues (scan.next c) t := by
  by_cases hc : scan = .inside ∧ (!isDelimiter c) = true
  · rw [eraseValues, if_pos hc] at h
    have hle := length_eraseValues_le .inside s
    rw [h, List.length_cons] at hle
    omega
  · have hkeep : ∀ t, eraseValues scan (c :: t) = c :: eraseValues (scan.next c) t := by
      intro t
      rw [eraseValues, if_neg hc]
    rw [hkeep] at h
    exact ⟨(List.cons.inj h).2, hkeep⟩

theorem eraseValues_bracket (scan : ValueScan) {c : Char} (hc : c = '<' ∨ c = '>') (s : Text) :
    eraseValues scan (c :: s) = c :: eraseValues .outside s := by
  rcases hc with rfl | rfl <;> cases scan <;> rfl

/-- Without an `=` there is no value. -/
theorem eraseValues_outside_append {u : Text} (h : '=' ∉ u) (s : Text) :
    eraseValues .outside (u ++ s) = u ++ eraseValues .outside s := by
  induction u with
  | nil => rfl
  | cons c u ih =>
      rw [List.mem_cons, not_or] at h
      obtain ⟨hc, hu⟩ := h
      have hnext : ValueScan.next .outside c = .outside := if_neg (Ne.symm hc)
      rw [List.cons_append, eraseValues, if_neg (by simp), hnext, ih hu, List.cons_append]

/-- A text from which the first pass takes nothing. -/
def Settled (s : Text) : Prop :=
  eraseValues .outside s = s

theorem settled_eraseValues (s : Text) : Settled (eraseValues .outside s) :=
  eraseValues_eraseValues .outside s

/-- Wherever the first pass stands, a text that it leaves alone is settled. -/
theorem settled_of_eq {scan : ValueScan} {s : Text} (h : eraseValues scan s = s) : Settled s := by
  have hinside : ∀ {s : Text}, eraseValues .inside s = s → Settled s := by
    intro s h
    cases s with
    | nil => rfl
    | cons c s =>
        have hc : isDelimiter c = true := by
          refine Classical.byContradiction fun hc => ?_
          rw [eraseValues, if_pos ⟨rfl, by simpa using hc⟩] at h
          have hle := length_eraseValues_le .inside s
          rw [h, List.length_cons] at hle
          omega
        have hne : c ≠ '=' := ne_of_kind hc rfl
        have hnext : ValueScan.next .inside c = .outside := if_pos hc
        have hrest := (eraseValues_cons_of_eq h).1
        rw [hnext] at hrest
        rw [Settled, eraseValues, if_neg (by simp), ValueScan.next, if_neg hne, hrest]
  cases scan with
  | outside => exact h
  | inside => exact hinside h
  | afterEquals =>
      cases s with
      | nil => rfl
      | cons c s =>
          have hrest := (eraseValues_cons_of_eq h).1
          rw [Settled, eraseValues, if_neg (by simp)]
          by_cases hquote : isQuote c = true
          · have hne : c ≠ '=' := ne_of_kind hquote rfl
            rw [ValueScan.next, if_pos hquote] at hrest
            rw [ValueScan.next, if_neg hne, hinside hrest]
          · rw [ValueScan.next, if_neg hquote] at hrest
            rw [ValueScan.next, hrest]

theorem Settled.of_suffix {s t : Text} (h : Settled s) (hst : t <:+ s) : Settled t := by
  obtain ⟨u, rfl⟩ := hst
  rw [Settled, eraseValues_append] at h
  have hlen := congrArg List.length h
  have hu := length_eraseValues_le .outside u
  have ht := length_eraseValues_le (ValueScan.outside.run u) t
  simp only [List.length_append] at hlen
  have hright := (List.append_inj h (by omega)).2
  exact settled_of_eq hright

/-- The second pass leaves a settled text settled: what it joins is the name of a tag, which holds no
`=`, and a text that was settled before. -/
theorem eraseValues_eraseAttributes {scan : ValueScan} {s : Text} (h : eraseValues scan s = s) :
    eraseValues scan (eraseAttributes s) = eraseAttributes s := by
  induction s using eraseAttributes_induction generalizing scan with
  | nil =>
      rw [eraseAttributes]
      rfl
  | tag name s hne hname hs ih =>
      have hequals : '=' ∉ name := not_mem_run hname rfl
      rw [eraseValues_bracket scan (Or.inl rfl), eraseValues_outside_append hequals] at h
      have hsettled : Settled s := List.append_cancel_left (List.cons.inj h).2
      rw [eraseAttributes_tag hne hname hs, eraseValues_bracket scan (Or.inl rfl),
        eraseValues_outside_append hequals, ih (hsettled.of_suffix (dropAttributes_suffix s))]
  | cons c s hc ih =>
      obtain ⟨hrest, hkeep⟩ := eraseValues_cons_of_eq h
      rw [eraseAttributes_cons hc, hkeep, ih hrest]

/-! ### The three passes -/

/-- What a text leaves open: what the three passes leave of it. -/
def leftOpen (s : Text) : Text :=
  eraseClosed (eraseAttributes (eraseValues .outside s))

theorem settled_leftOpen (s : Text) : Settled (leftOpen s) := by
  have hattributes : Settled (eraseAttributes _) := eraseValues_eraseAttributes (settled_eraseValues s)
  exact hattributes.of_suffix (eraseClosed_suffix _)

end Markup

namespace Residue

open Markup

theorem advance_of_ne_nil {literal : Text} (h : literal ≠ []) (residue : Residue) :
    residue.advance literal = ⟨leftOpen (residue.text ++ literal)⟩ := by
  obtain ⟨c, s, rfl⟩ := List.exists_cons_of_ne_nil h
  rfl

/-- **Residues are settled**: no text stands in a value that is open. -/
theorem settled_advance {residue : Residue} (h : Settled residue.text) (literal : Text) :
    Settled (residue.advance literal).text := by
  by_cases hliteral : literal = []
  · rw [hliteral]
    exact h
  · rw [advance_of_ne_nil hliteral]
    exact settled_leftOpen _

theorem settled_topLevel : Settled topLevel.text := rfl

end Residue

end SafeTemplate
