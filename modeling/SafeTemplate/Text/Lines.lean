/-
**Line ends and indentation.**

A line ends in LF, or in CR LF in files from elsewhere.  The functions here unify the two, collapse
empty lines, cut a text into its lines and remove indentation and line ends altogether.

Main definitions:

* `Text.unifyLineEnds` — every CR LF becomes LF, from left to right, once;
* `Text.collapseLineEnds` — every run of LF becomes one LF;
* `Text.lines` — the text cut after each LF;
* `Text.dropIndentation` — the spaces at the start of each line are removed;
* `Text.dropLineEnds` — every LF or CR LF is removed.

Main results: `Text.flatten_lines` — the lines put together again are the text.
-/

import SafeTemplate.Text.Basic

set_option autoImplicit false

namespace SafeTemplate.Text

/-- Each CR LF becomes LF.  A CR before such a pair is kept. -/
def unifyLineEnds : Text → Text
  | '\r' :: '\n' :: s => '\n' :: unifyLineEnds s
  | c :: s => c :: unifyLineEnds s
  | [] => []

/-- Each run of LF becomes one LF. -/
def collapseLineEnds : Text → Text
  | '\n' :: '\n' :: s => collapseLineEnds ('\n' :: s)
  | c :: s => c :: collapseLineEnds s
  | [] => []

/-- The lines of a text, each with the LF that ends it.  The last one may have none. -/
def lines : Text → List Text
  | [] => []
  | c :: s =>
      if c = '\n' then [c] :: lines s
      else
        match lines s with
        | [] => [[c]]
        | line :: more => (c :: line) :: more

theorem flatten_lines (s : Text) : (lines s).flatten = s := by
  induction s with
  | nil => rfl
  | cons c s ih =>
      unfold lines
      split
      · simp [ih]
      · cases h : lines s with
        | nil => simpa [h] using ih
        | cons line more => simpa [h] using ih

/-- Removes the spaces at the start of the text, if `atStart`, and after each LF. -/
def dropSpaces (atStart : Bool) : Text → Text
  | [] => []
  | c :: s =>
      if atStart && c == ' ' then dropSpaces true s
      else c :: dropSpaces (c == '\n') s

/-- Removes the spaces at the start of each line. -/
def dropIndentation (s : Text) : Text :=
  dropSpaces true s

/-- Removes each LF, and the CR before it if there is one. -/
def dropLineEnds : Text → Text
  | '\r' :: '\n' :: s => dropLineEnds s
  | '\n' :: s => dropLineEnds s
  | c :: s => c :: dropLineEnds s
  | [] => []

end SafeTemplate.Text
