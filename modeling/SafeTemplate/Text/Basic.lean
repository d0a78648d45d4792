/-
**Text as a list of characters.**

Everything this library reads or writes is text: templates, style sheets, JSON documents, paths.  It
is kept as a list of characters, so that a reader of text is a recursion on a list and what is left
to read is again a text.

Main definitions:

* `Text.after?` — what follows a given opening, if the text starts with it;
* `Text.cut?` — the text before and after the first occurrence of a mark.

Main results:

* `Text.after?_eq_some_iff` — `after?` splits a text exactly as `++` puts it together;
* `Text.cut?_eq_some` — the two halves and the mark between them give the text back.
-/

set_option autoImplicit false

namespace SafeTemplate

/-- Text, character by character. -/
abbrev Text := List Char

namespace Text

/-! ### Openings -/

/-- What follows `lead` in a text that starts with it. -/
def after? : (lead : Text) → Text → Option Text
  | [], s => some s
  | _ :: _, [] => none
  | c :: lead, d :: s => if c = d then after? lead s else none

theorem after?_eq_some_iff {lead s rest : Text} :
    after? lead s = some rest ↔ s = lead ++ rest := by
  induction lead generalizing s with
  | nil => simp [after?]
  | cons c lead ih =>
      cases s with
      | nil => simp [after?]
      | cons d s =>
          by_cases h : c = d
          · simp [after?, h, ih]
          · simp [after?, h, Ne.symm h]

/-! ### Marks -/

/-- The text before the first occurrence of `mark`, and the text after it.  The mark is not empty. -/
def cut? (mark : Text) : Text → Option (Text × Text)
  | [] => none
  | c :: s =>
      match after? mark (c :: s) with
      | some rest => some ([], rest)
      | none => (cut? mark s).map fun halves => (c :: halves.1, halves.2)

theorem cut?_eq_some {mark s before rest : Text} (h : cut? mark s = some (before, rest)) :
    s = before ++ mark ++ rest := by
  induction s generalizing before with
  | nil => simp [cut?] at h
  | cons c s ih =>
      unfold cut? at h
      split at h
      · next found =>
          simp only [Option.some.injEq, Prod.mk.injEq] at h
          obtain ⟨rfl, rfl⟩ := h
          simpa using after?_eq_some_iff.1 found
      · simp only [Option.map_eq_some_iff, Prod.mk.injEq, Prod.exists] at h
        obtain ⟨b, r, hs, rfl, rfl⟩ := h
        simpa using ih hs

/-- The rest after a mark is shorter than the text. -/
theorem length_lt_of_cut? {mark s before rest : Text} (hm : mark ≠ [])
    (h : cut? mark s = some (before, rest)) : rest.length < s.length := by
  have hpos := List.length_pos_iff.2 hm
  have := congrArg List.length (cut?_eq_some h)
  simp only [List.length_append] at this
  omega

end Text

end SafeTemplate
