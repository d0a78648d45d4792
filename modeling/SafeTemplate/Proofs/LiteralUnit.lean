/-
**The units of literal text.**

Literal text is read in units, and so it can be written only in units: a plain character, or a
backslash and the character it escapes.  A unit carries the proof that its character may stand there,
so a list of units is always literal text that some template can hold.

Main definitions:

* `LiteralUnit`, `LiteralUnit.written`, `LiteralUnit.char` — a unit, how it is written and what it
  means;
* `Literal.written`, `Literal.meaning` — the same for a list of units.

Main results:

* `Literal.span_written` — reading gives back the units that were written, wherever a stop follows;
* `Literal.exists_units` — what is read is always a list of units, and reading stops for good after it;
* `Literal.unescape_written` — resolving the escapes gives the meaning of the units;
* `Literal.written_injective` — no text can be cut into units in two ways.
-/

import Mathlib
import SafeTemplate.Template.Literal

set_option autoImplicit false

namespace SafeTemplate

/-- The characters that stand for themselves in literal text. -/
def Literal.isPlain (c : Char) : Bool :=
  c != '{' && c != '}' && c != '\\'

/-- A unit of literal text: a character that stands for itself, or one behind a backslash. -/
inductive LiteralUnit
  | plain (c : Char) (h : Literal.isPlain c = true)
  | escaped (c : Char) (h : Literal.isLineTerminator c = false)
  deriving DecidableEq

namespace LiteralUnit

/-- How a unit is written. -/
def written : LiteralUnit → Text
  | plain c _ => [c]
  | escaped c _ => ['\\', c]

/-- The character that a unit means. -/
def char : LiteralUnit → Char
  | plain c _ => c
  | escaped c _ => c

end LiteralUnit

namespace Literal

/-- How some units are written, one after the other. -/
def written (units : List LiteralUnit) : Text :=
  units.flatMap LiteralUnit.written

/-- The text that some units mean. -/
def meaning (units : List LiteralUnit) : Text :=
  units.map LiteralUnit.char

@[simp] theorem written_nil : written [] = [] := rfl

@[simp] theorem written_cons (unit : LiteralUnit) (units : List LiteralUnit) :
    written (unit :: units) = unit.written ++ written units := rfl

@[simp] theorem written_append (units more : List LiteralUnit) :
    written (units ++ more) = written units ++ written more :=
  List.flatMap_append

@[simp] theorem meaning_append (units more : List LiteralUnit) :
    meaning (units ++ more) = meaning units ++ meaning more :=
  List.map_append

theorem written_ne_nil {units : List LiteralUnit} (h : units ≠ []) : written units ≠ [] := by
  obtain ⟨unit, units, rfl⟩ := List.exists_cons_of_ne_nil h
  cases unit <;> simp [LiteralUnit.written]

theorem meaning_ne_nil {units : List LiteralUnit} (h : units ≠ []) : meaning units ≠ [] := by
  simpa [meaning] using h

/-! ### One unit at a time -/

theorem isPlain_iff {c : Char} : isPlain c = true ↔ c ≠ '{' ∧ c ≠ '}' ∧ c ≠ '\\' := by
  simp [isPlain, and_assoc]

theorem span_plain {c : Char} (h : isPlain c = true) (s : Text) :
    span (c :: s) = if opensBrace s then ([], c :: s) else (c :: (span s).1, (span s).2) := by
  obtain ⟨h₁, h₂, h₃⟩ := isPlain_iff.1 h
  have hb : (c == '{' || c == '}' || opensBrace s) = opensBrace s := by simp [h₁, h₂]
  rw [span.eq_4 c s (by simp [h₃]) (by simp [h₃]), hb]

theorem span_escaped {c : Char} (h : isLineTerminator c = false) (s : Text) :
    span ('\\' :: c :: s) =
      if opensBrace s then ([], '\\' :: c :: s) else ('\\' :: c :: (span s).1, (span s).2) := by
  simp [span, h]

/-- A unit is read unless a brace opens right after it. -/
theorem span_unit (unit : LiteralUnit) {s : Text} (brace : opensBrace s = false) :
    span (unit.written ++ s) = (unit.written ++ (span s).1, (span s).2) := by
  cases unit with
  | plain c h => simp [LiteralUnit.written, span_plain h, brace]
  | escaped c h => simp [LiteralUnit.written, span_escaped h, brace]

theorem exists_of_opensBrace {s : Text} (h : opensBrace s = true) : ∃ t, s = '{' :: t := by
  unfold opensBrace at h
  split at h
  · exact ⟨_, rfl⟩
  · cases h

/-- No unit starts with a brace. -/
theorem opensBrace_unit (unit : LiteralUnit) (s : Text) :
    opensBrace (unit.written ++ s) = false := by
  cases unit with
  | plain c h =>
      obtain ⟨h₁, -, -⟩ := isPlain_iff.1 h
      simp [LiteralUnit.written, opensBrace, h₁]
  | escaped c h => simp [LiteralUnit.written, opensBrace]

theorem opensBrace_written {units : List LiteralUnit} {s : Text} (brace : opensBrace s = false) :
    opensBrace (written units ++ s) = false := by
  cases units with
  | nil => simpa using brace
  | cons unit units =>
      rw [written_cons, List.append_assoc]
      exact opensBrace_unit unit _

/-! ### Runs of units -/

/-- A text where no unit can be read. -/
def Stops (s : Text) : Prop :=
  span s = ([], s)

theorem stops_nil : Stops [] := rfl

theorem stops_closing (s : Text) : Stops ('}' :: s) := by
  simp [Stops, span]

/-- A unit right before a brace is not read. -/
theorem stops_unit (unit : LiteralUnit) (s : Text) : Stops (unit.written ++ '{' :: s) := by
  cases unit with
  | plain c h => simp [Stops, LiteralUnit.written, span_plain h, opensBrace]
  | escaped c h => simp [Stops, LiteralUnit.written, span_escaped h, opensBrace]

/-- The symbol of a placeholder is no literal text. -/
theorem stops_head {symbol : Char} (h : isPlain symbol = true) (s : Text) :
    Stops (symbol :: '{' :: s) :=
  stops_unit (.plain symbol h) s

/-- Units are read, and then what follows them, unless a brace opens there. -/
theorem span_written_append (units : List LiteralUnit) {s : Text} (brace : opensBrace s = false) :
    span (written units ++ s) = (written units ++ (span s).1, (span s).2) := by
  induction units with
  | nil => rfl
  | cons unit units ih =>
      rw [written_cons, List.append_assoc, span_unit unit (opensBrace_written brace), ih,
        List.append_assoc]

/-- **Reading gives back the units that were written**, up to where the rest stops it. -/
theorem span_written (units : List LiteralUnit) {rest : Text} (stops : Stops rest)
    (brace : opensBrace rest = false) :
    span (written units ++ rest) = (written units, rest) := by
  rw [span_written_append units brace, show span rest = ([], rest) from stops, List.append_nil]

theorem read?_of_stops {s : Text} (stops : Stops s) : read? s = none := by
  simp [read?, show span s = ([], s) from stops]

theorem read?_written {units : List LiteralUnit} (nonempty : units ≠ []) {rest : Text}
    (stops : Stops rest) (brace : opensBrace rest = false) :
    read? (written units ++ rest) = some (written units, rest) := by
  obtain ⟨unit, units, rfl⟩ := List.exists_cons_of_ne_nil nonempty
  rw [read?, span_written _ stops brace]
  cases unit <;> simp [LiteralUnit.written]

/-- What is neither a lone backslash nor one before a character is no backslash. -/
theorem ne_backslash {c : Char} {s : Text} (lone : c = '\\' → s = [] → False)
    (pair : ∀ d t, c = '\\' → s = d :: t → False) : c ≠ '\\' := by
  intro backslash
  cases s with
  | nil => exact lone backslash rfl
  | cons d t => exact pair d t backslash rfl

/-- **What is read is a list of units**, and nothing more can be read after it. -/
theorem exists_units (s : Text) :
    ∃ units, (span s).1 = written units ∧ Stops (span s).2 := by
  -- the cases are those of `span`: it stops at the end, at a lone backslash, or before `s`; else one
  -- unit comes before the units of the rest
  fun_induction span s with
  | case1 => exact ⟨[], rfl, stops_nil⟩
  | case2 => exact ⟨[], rfl, rfl⟩
  | case3 c s stop => exact ⟨[], rfl, by simp [Stops, span, stop]⟩
  | case4 c s go ih =>
      obtain ⟨units, hread, hstop⟩ := ih
      have hc : isLineTerminator c = false := by simp_all
      exact ⟨.escaped c hc :: units, by simp [LiteralUnit.written, hread], hstop⟩
  | case5 c s lone pair stop =>
      refine ⟨[], rfl, ?_⟩
      rw [Stops, span.eq_4 c s lone pair, if_pos stop]
  | case6 c s lone pair go ih =>
      obtain ⟨units, hread, hstop⟩ := ih
      have hc : isPlain c = true :=
        isPlain_iff.2 ⟨by simp_all, by simp_all, ne_backslash lone pair⟩
      exact ⟨.plain c hc :: units, by simp [LiteralUnit.written, hread], hstop⟩

theorem span_of_read? {s run rest : Text} (h : read? s = some (run, rest)) :
    span s = (run, rest) := by
  unfold read? at h
  split at h
  · cases h
  · exact Option.some.inj h

/-- What `read?` reads is units, at least one, and reading stops after them. -/
theorem exists_units_of_read? {s run rest : Text} (h : read? s = some (run, rest)) :
    ∃ units, units ≠ [] ∧ run = written units ∧ s = written units ++ rest ∧ Stops rest := by
  obtain ⟨nonempty, rfl⟩ := read?_eq_some h
  obtain ⟨units, hrun, hstop⟩ := exists_units (run ++ rest)
  rw [span_of_read? h] at hrun hstop
  obtain rfl : run = written units := hrun
  exact ⟨units, by rintro rfl; exact nonempty rfl, rfl, rfl, hstop⟩

/-! ### Meaning -/

theorem unescape_unit (unit : LiteralUnit) (s : Text) :
    unescape (unit.written ++ s) = unit.char :: unescape s := by
  cases unit with
  | plain c h =>
      obtain ⟨-, -, h₃⟩ := isPlain_iff.1 h
      exact unescape.eq_4 c s (by simp [h₃]) (by simp [h₃])
  | escaped c h => simp [LiteralUnit.written, LiteralUnit.char, unescape, h]

/-- **Resolving the escapes gives the meaning of the units.** -/
theorem unescape_written (units : List LiteralUnit) :
    unescape (written units) = meaning units := by
  induction units with
  | nil => rfl
  | cons unit units ih =>
      rw [written_cons, unescape_unit, ih]
      rfl

/-! ### One way to cut a text -/

/-- A unit is known from the text that it starts. -/
theorem written_unit_inj {unit unit' : LiteralUnit} {s s' : Text}
    (h : unit.written ++ s = unit'.written ++ s') : unit = unit' ∧ s = s' := by
  cases unit with
  | plain c hc =>
      cases unit' with
      | plain c' hc' => simpa [LiteralUnit.written] using h
      | escaped c' hc' =>
          obtain ⟨-, -, h₃⟩ := isPlain_iff.1 hc
          exact absurd (List.cons.inj h).1 h₃
  | escaped c hc =>
      cases unit' with
      | plain c' hc' =>
          obtain ⟨-, -, h₃⟩ := isPlain_iff.1 hc'
          exact absurd (List.cons.inj h).1.symm h₃
      | escaped c' hc' => simpa [LiteralUnit.written] using h

/-- **No text can be cut into units in two ways.** -/
theorem written_injective : Function.Injective written := by
  intro units
  induction units with
  | nil =>
      intro units' h
      cases units' with
      | nil => rfl
      | cons unit' units' => cases unit' <;> simp [LiteralUnit.written] at h
  | cons unit units ih =>
      intro units' h
      cases units' with
      | nil => cases unit <;> simp [LiteralUnit.written] at h
      | cons unit' units' =>
          obtain ⟨hunit, hrest⟩ := written_unit_inj h
          rw [hunit, ih hrest]

end Literal

end SafeTemplate
