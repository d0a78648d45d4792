/-
**Where closed markup ends.**

Each erasing pass looks ahead, so in general two texts cannot be erased one by one: an attribute may be
finished by what comes next, and a name may go on.  Where the first text leaves nothing open they can,
whatever is well-formed on the other side of the seam.  The first text must then end outside of tags,
and no pass looks across a `>`.

Main results:

* `Markup.dropAttributes_append`, `Markup.eraseAttributes_append`, `Markup.eraseClosed_append` — the
  passes at a seam;
* `Markup.leftOpen_append`, `Residue.advance_append` — **closed markup leaves no trace in what
  follows**.
-/

import SafeTemplate.Proofs.Position

set_option autoImplicit false

namespace SafeTemplate

namespace Markup

/-! ### The first pass -/

/-- Where no quote comes next, it makes no difference whether an `=` came before. -/
theorem eraseValues_of_ne_inside {scan : ValueScan} (hscan : scan ≠ .inside) {s : Text}
    (hs : ∀ c ∈ s.head?, isQuote c = false) : eraseValues scan s = eraseValues .outside s := by
  cases s with
  | nil => rfl
  | cons c s =>
      have hquote : isQuote c = false := hs c rfl
      cases scan with
      | outside => rfl
      | afterEquals => simp [eraseValues, ValueScan.next, hquote]
      | inside => exact absurd rfl hscan

/-- Well-formed markup does not start with a quote. -/
theorem not_isQuote_of_follow? {s : Text} (h : Position.text.follow? s ≠ none) :
    ∀ c ∈ s.head?, isQuote c = false := by
  intro c hc
  cases s with
  | nil => cases hc
  | cons d s =>
      obtain rfl : d = c := Option.some.inj hc
      rw [Position.follow?_cons] at h
      split at h
      · next hexpects =>
          rcases Bool.or_eq_true_iff.1 hexpects with hlt | hplain
          · rw [beq_iff_eq.1 hlt]
            rfl
          · exact not_isQuote_of_not_isDelimiter (by simpa using hplain)
      · exact absurd rfl h

theorem eraseValues_append_of_follow? {s t : Text}
    (hs : Position.text.follow? s = some .text) (ht : ∀ c ∈ t.head?, isQuote c = false) :
    eraseValues .outside (s ++ t) = eraseValues .outside s ++ eraseValues .outside t := by
  have hend : ValueScan.outside.run s ≠ .inside := Position.agrees_outside.run hs
  rw [eraseValues_append, eraseValues_of_ne_inside hend ht]

/-! ### The second pass -/

theorem Marks.append {mark rest : Text} (h : Marks mark rest) (t : Text) :
    Marks mark (rest ++ t) := by
  rcases h with hvalue | ⟨rfl, c, s, rfl, hc⟩
  · exact Or.inl hvalue
  · exact Or.inr ⟨rfl, c, s ++ t, rfl, hc⟩

theorem Marks.of_append {mark rest t : Text} (h : Marks mark (rest ++ t)) (hne : rest ≠ []) :
    Marks mark rest := by
  rcases h with hvalue | ⟨rfl, c, s, heq, hc⟩
  · exact Or.inl hvalue
  · obtain ⟨d, rest, rfl⟩ := List.exists_cons_of_ne_nil hne
    obtain rfl : d = c := (List.cons.inj heq).1
    exact Or.inr ⟨rfl, d, rest, rfl, hc⟩

/-- No attribute holds a `>`. -/
theorem closing_not_mem_attribute {name mark rest : Text}
    (hname : ∀ c ∈ name, isAttributeChar c = true) (hmarks : Marks mark rest) :
    '>' ∉ ' ' :: (name ++ mark) := by
  intro hmem
  rcases List.mem_cons.1 hmem with hspace | hmem
  · exact absurd hspace (by decide)
  · rcases List.mem_append.1 hmem with hname' | hmark
    · exact not_mem_run hname rfl hname'
    · rcases hmarks with ⟨quote, hquote, rfl⟩ | ⟨rfl, -⟩
      · rcases isQuote_iff.1 hquote with rfl | rfl <;> exact absurd hmark (by decide)
      · cases hmark

/-- A finished attribute that shows in the longer text shows in the shorter one, which goes on behind
it. -/
theorem finishedAttribute?_append_of_none {s t : Text} (hclosing : '>' ∈ s)
    (h : finishedAttribute? s = none) : finishedAttribute? (s ++ t) = none := by
  refine Option.eq_none_iff_forall_ne_some.2 fun rest hrest => ?_
  obtain ⟨name, mark, hne, hname, hmarks, heq⟩ := finishedAttribute?_eq_some_iff.1 hrest
  have hnone := closing_not_mem_attribute hname hmarks
  have hsplit : s ++ t = (' ' :: (name ++ mark)) ++ rest := by simpa using heq
  rcases List.append_eq_append_iff.1 hsplit with ⟨u, hu, -⟩ | ⟨u, rfl, rfl⟩
  · -- the attribute would go beyond `s`, across the `>`
    rw [hu] at hnone
    exact hnone (List.mem_append_left u hclosing)
  · have hrestNe : u ≠ [] := by
      rintro rfl
      rw [List.append_nil] at hclosing
      exact hnone hclosing
    have hsome : finishedAttribute? (' ' :: (name ++ mark) ++ u) = some u :=
      finishedAttribute?_eq_some_iff.2 ⟨name, mark, hne, hname, hmarks.of_append hrestNe, by simp⟩
    rw [hsome] at h
    cases h

theorem dropAttributes_append {s : Text} (h : '>' ∈ s) (t : Text) :
    dropAttributes (s ++ t) = dropAttributes s ++ t := by
  fun_induction dropAttributes s with
  | case1 s rest hfinished ih =>
      obtain ⟨name, mark, hne, hname, hmarks, rfl⟩ := finishedAttribute?_eq_some_iff.1 hfinished
      have hrest : '>' ∈ rest := by
        have hsplit : '>' ∈ (' ' :: (name ++ mark)) ++ rest := by simpa using h
        rcases List.mem_append.1 hsplit with hattribute | hrest
        · exact absurd hattribute (closing_not_mem_attribute hname hmarks)
        · exact hrest
      rw [← ih hrest]
      have hsplit : ' ' :: (name ++ (mark ++ rest)) ++ t =
          ' ' :: (name ++ (mark ++ (rest ++ t))) := by simp
      rw [hsplit, dropAttributes_attribute hne hname (hmarks.append t)]
  | case2 s hnone =>
      exact dropAttributes_of_none (finishedAttribute?_append_of_none h hnone)

theorem eq_closing_of_next_eq_text {position : Position} (hposition : position ≠ .text) {c : Char}
    (h : position.next c = .text) : c = '>' := by
  cases position with
  | text => exact absurd rfl hposition
  | tag =>
      rw [Position.next] at h
      split at h
      · assumption
      · split at h <;> cases h
  | afterEquals =>
      rw [Position.next] at h
      split at h
      · cases h
      · split at h
        · assumption
        · split at h <;> cases h
  | value quote =>
      rw [Position.next] at h
      split at h <;> cases h

/-- The way from inside a tag out to text goes over a `>`. -/
theorem closing_mem_of_follow? {position : Position} (hposition : position ≠ .text) {s : Text}
    (h : position.follow? s = some .text) : '>' ∈ s := by
  induction s generalizing position with
  | nil => exact absurd (Option.some.inj h) hposition
  | cons c s ih =>
      rw [Position.follow?_cons] at h
      split at h
      · by_cases hnext : position.next c = .text
        · rw [eq_closing_of_next_eq_text hposition hnext]
          exact List.mem_cons_self ..
        · exact List.mem_cons_of_mem c (ih hnext h)
      · cases h

theorem eraseAttributes_append {position : Position} {s : Text}
    (h : position.follow? s = some .text) (t : Text) :
    eraseAttributes (s ++ t) = eraseAttributes s ++ eraseAttributes t := by
  induction s using eraseAttributes_induction generalizing position with
  | nil =>
      rw [eraseAttributes]
      rfl
  | tag name s hne hname hs ih =>
      have hattribute : ∀ c ∈ name, isAttributeChar c = true :=
        fun c hc => isAttributeChar_of_isNameChar (hname c hc)
      rw [Position.follow?_cons] at h
      split at h
      · next hexpects =>
          obtain rfl := Position.eq_text_of_expects hexpects
          have htag : Position.tag.follow? s = some .text :=
            (Position.follow?_tag_name hattribute s).symm.trans h
          have hclosing : '>' ∈ s := closing_mem_of_follow? (by simp) htag
          have hhead : ∀ c ∈ (s ++ t).head?, isNameChar c = false := by
            obtain ⟨d, s, rfl⟩ := List.exists_cons_of_ne_nil (List.ne_nil_of_mem hclosing)
            exact hs
          have hdropped := ih ((Position.follow?_dropAttributes s).trans htag)
          rw [List.cons_append, List.append_assoc, eraseAttributes_tag hne hname hhead,
            eraseAttributes_tag hne hname hs, dropAttributes_append hclosing, hdropped,
            List.cons_append, List.append_assoc]
      · cases h
  | cons c s hc ih =>
      rw [Position.follow?_cons] at h
      split at h
      · next hexpects =>
          have hhead : c = '<' → ∀ d ∈ (s ++ t).head?, isNameChar d = false := by
            rintro rfl
            obtain rfl := Position.eq_text_of_expects hexpects
            have hclosing : '>' ∈ s := closing_mem_of_follow? (by simp [Position.next]) h
            obtain ⟨d, s, rfl⟩ := List.exists_cons_of_ne_nil (List.ne_nil_of_mem hclosing)
            exact hc rfl
          rw [List.cons_append, eraseAttributes_cons hhead, eraseAttributes_cons hc, ih h]
          rfl
      · cases h

/-! ### The third pass -/

theorem eraseClosed_append {s : Text} (h : eraseClosed s = []) (t : Text) :
    eraseClosed (s ++ t) = eraseClosed t := by
  fun_induction eraseClosed s with
  | case1 => rfl
  | case2 c s hc ih =>
      rw [List.cons_append, eraseClosed_plain (by simpa using hc), ih h]
  | case3 c s hc rest hwhole ih =>
      obtain ⟨slash, name, hslash, hne, hname, heq⟩ := wholeTag?_eq_some_iff.1 hwhole
      have hwhole' : wholeTag? (c :: s ++ t) = some (rest ++ t) :=
        wholeTag?_eq_some_iff.2 ⟨slash, name, hslash, hne, hname, by rw [heq]; simp⟩
      rw [eraseClosed_tag hwhole', ih h]
  | case4 c s hc hnone => cases h

/-! ### The seam -/

/-- **Closed markup leaves no trace in what follows.** -/
theorem leftOpen_append {s t : Text} (hs : leftOpen s = [])
    (ht : Position.text.follow? t ≠ none) : leftOpen (s ++ t) = leftOpen t := by
  have hfollow : Position.text.follow? s = some .text := by
    rw [← Position.follow?_leftOpen, hs]
    rfl
  have hvalues : Position.text.follow? (eraseValues .outside s) = some .text :=
    (Position.follow?_eraseValues Position.agrees_outside s).trans hfollow
  have hquote := not_isQuote_of_follow? ht
  rw [leftOpen, eraseValues_append_of_follow? hfollow hquote, eraseAttributes_append hvalues,
    eraseClosed_append hs]
  rfl

end Markup

namespace Residue

open Markup

/-- **Behind a literal text that leaves nothing open, markup goes on as at top level.** -/
theorem advance_append {residue : Residue} {literal more : Text} (hne : more ≠ [])
    (hclosed : residue.advance literal = topLevel) (hmore : Position.text.follow? more ≠ none) :
    residue.advance (literal ++ more) = topLevel.advance more := by
  cases literal with
  | nil =>
      obtain rfl : residue = topLevel := hclosed
      rfl
  | cons c s =>
      rw [advance_of_ne_nil (List.cons_ne_nil c s)] at hclosed
      have hopen : leftOpen (residue.text ++ c :: s) = [] := congrArg Residue.text hclosed
      rw [advance_of_ne_nil (by simp), advance_of_ne_nil hne, ← List.append_assoc,
        leftOpen_append hopen hmore]
      rfl

end Residue

end SafeTemplate
