/-
**The longest run of literal text.**

A run is at least one unit at the start of a text, with no `{` behind it.  What is read at the start of
a text is its longest run, and nothing is read only where there is none.

The longest run can also be found with two marks that go over the text: where the last unit starts, and
where the units end.  The marks first go over every unit that stands there, also over one with a `{`
behind it; that one is then given back.  They are counted in bytes, so it has to be seen that neither
of them ever stands inside of a character.

Main definitions:

* `Literal.Run`, `Literal.LongestRun` — the runs of a text, and the longest of them;
* `Literal.Marks`, `Literal.Marks.pass` — the two marks, and how they go over a text;
* `Literal.cutBytes?`, `Literal.cutRun?`, `Literal.readMarked?` — a text cut at a mark, and reading by
  the marks.

Main results:

* `Literal.read?_eq_some_iff`, `Literal.read?_eq_none_iff` — what is read is the longest run;
* `Literal.exists_units_append` — every text is units, and a rest where no unit stands;
* `Literal.readMarked?_eq` — reading by the marks never cuts a character, and is reading;
* `Literal.reads_longest_run` — **what is read is the longest run, and resolving its escapes gives one
  character for each of its units**.
-/

import SafeTemplate.Json.Fault
import SafeTemplate.Proofs.LiteralUnit

set_option autoImplicit false

namespace SafeTemplate.Literal

open Json (byteCount)

/-! ### Runs -/

/-- A text is a run of literal text and what follows it: there is at least one unit, and no `{` opens
behind the last one. -/
structure Run (s run rest : Text) : Prop where
  whole : s = run ++ rest
  units : ∃ units, units ≠ [] ∧ written units = run
  unbraced : rest.head? ≠ some '{'

/-- A run that every other run of the text is a part of. -/
structure LongestRun (s run rest : Text) : Prop where
  stands : Run s run rest
  longest : ∀ other after, Run s other after → other <+: run

theorem opensBrace_eq_false_iff {s : Text} : opensBrace s = false ↔ s.head? ≠ some '{' := by
  constructor
  · intro h hhead
    obtain ⟨t, rfl⟩ := List.head?_eq_some_iff.1 hhead
    simp [opensBrace] at h
  · intro h
    rw [Bool.eq_false_iff]
    intro hbrace
    obtain ⟨t, rfl⟩ := exists_of_opensBrace hbrace
    exact h rfl

/-- Reading stops before a brace only if it starts there. -/
theorem opensBrace_span {s : Text} (h : opensBrace s = false) : opensBrace (span s).2 = false := by
  fun_induction span s with
  | case1 => exact h
  | case2 => exact h
  | case3 c s stop => exact h
  | case4 c s go ih => exact ih (by simp_all)  -- no brace opens behind a unit that is read
  | case5 c s lone pair stop => exact h
  | case6 c s lone pair go ih => exact ih (by simp_all)

/-- What is read is a run. -/
theorem run_of_read? {s run rest : Text} (h : read? s = some (run, rest)) : Run s run rest := by
  obtain ⟨units, nonempty, rfl, rfl, -⟩ := exists_units_of_read? h
  have hstart : opensBrace (written units ++ rest) = false := by
    obtain ⟨unit, units, rfl⟩ := List.exists_cons_of_ne_nil nonempty
    rw [written_cons, List.append_assoc]
    exact opensBrace_unit unit _
  have hrest := opensBrace_span hstart
  rw [span_of_read? h] at hrest
  exact ⟨rfl, ⟨units, nonempty, rfl⟩, opensBrace_eq_false_iff.1 hrest⟩

theorem Run.ne_nil {s run rest : Text} (h : Run s run rest) : run ≠ [] := by
  obtain ⟨-, ⟨units, nonempty, rfl⟩, -⟩ := h
  exact written_ne_nil nonempty

/-- Reading goes over every run. -/
theorem Run.prefix_span {s run rest : Text} (h : Run s run rest) : run <+: (span s).1 := by
  obtain ⟨rfl, ⟨units, -, rfl⟩, hbrace⟩ := h
  rw [span_written_append units (opensBrace_eq_false_iff.2 hbrace)]
  exact List.prefix_append _ _

/-- Where there is a run, something is read. -/
theorem Run.read?_eq {s run rest : Text} (h : Run s run rest) : read? s = some (span s) := by
  have hne : (span s).1 ≠ [] := by
    intro hnil
    have hprefix := h.prefix_span
    rw [hnil] at hprefix
    exact h.ne_nil (List.prefix_nil.1 hprefix)
  rw [read?, if_neg (by simpa using hne)]

/-- **What is read is the longest run.** -/
theorem read?_eq_some_iff {s run rest : Text} :
    read? s = some (run, rest) ↔ LongestRun s run rest := by
  constructor
  · intro h
    refine ⟨run_of_read? h, ?_⟩
    intro other after hother
    have hprefix := hother.prefix_span
    rwa [span_of_read? h] at hprefix
  · intro h
    have hread := h.stands.read?_eq
    have hrun : (span s).1 = run :=
      (h.longest _ _ (run_of_read? hread)).eq_of_length_le h.stands.prefix_span.length_le
    have hrest : (span s).2 = rest := by
      have hwhole := (span_append s).trans h.stands.whole
      rw [hrun] at hwhole
      exact List.append_cancel_left hwhole
    rw [hread, ← hrun, ← hrest]

/-- Nothing is read only where there is no run. -/
theorem read?_eq_none_iff {s : Text} : read? s = none ↔ ∀ run rest, ¬Run s run rest := by
  constructor
  · intro h run rest hrun
    rw [hrun.read?_eq] at h
    cases h
  · intro h
    cases hread : read? s with
    | none => rfl
    | some found => exact absurd (run_of_read? hread) (h found.1 found.2)

/-! ### Units and a rest -/

/-- A text where no unit stands. -/
def Unitless (s : Text) : Prop :=
  ∀ unit t, s ≠ LiteralUnit.written unit ++ t

/-- **Every text is units, and a rest where no unit stands.** -/
theorem exists_units_append (s : Text) :
    ∃ units rest, s = written units ++ rest ∧ Unitless rest := by
  by_cases h : Unitless s
  · exact ⟨[], s, rfl, h⟩
  · simp only [Unitless, ne_eq, not_forall, not_not] at h
    obtain ⟨unit, t, hs⟩ := h
    have hshorter : t.length < s.length := by
      rw [hs]
      cases unit <;> simp [LiteralUnit.written]
    obtain ⟨units, rest, ht, hrest⟩ := exists_units_append t
    exact ⟨unit :: units, rest, by rw [hs, ht, written_cons, List.append_assoc], hrest⟩
termination_by s.length

theorem Unitless.stops {s : Text} (h : Unitless s) : Stops s := by
  obtain ⟨units, hunits, -⟩ := exists_units s
  have hwhole := span_append s
  cases units with
  | nil =>
      rw [hunits] at hwhole
      exact Prod.ext hunits hwhole
  | cons unit units =>
      rw [hunits, written_cons, List.append_assoc] at hwhole
      exact absurd hwhole.symm (h unit _)

/-! ### Marks -/

theorem byteCount_append (s t : Text) : byteCount (s ++ t) = byteCount s + byteCount t := by
  induction s with
  | nil => simp [byteCount]
  | cons c s ih => simp [byteCount, ih, Nat.add_assoc]

theorem byteCount_eq_zero_iff {s : Text} : byteCount s = 0 ↔ s = [] := by
  cases s with
  | nil => simp [byteCount]
  | cons c s => simp [byteCount, c.utf8Size_pos.ne']

/-- Two places in a text, in bytes from its start: where the last unit that was passed starts, and
where it ends. -/
structure Marks where
  last : Nat
  stop : Nat
  deriving DecidableEq, Repr

namespace Marks

/-- The marks behind the units at the start of the text, whatever follows them. -/
def pass (marks : Marks) : Text → Marks
  | [] => marks
  | ['\\'] => marks
  | '\\' :: c :: s =>
      if isLineTerminator c then marks
      else pass ⟨marks.stop, marks.stop + '\\'.utf8Size + c.utf8Size⟩ s
  | c :: s =>
      if c == '{' || c == '}' then marks
      else pass ⟨marks.stop, marks.stop + c.utf8Size⟩ s

/-- The marks behind one more unit. -/
def behind (marks : Marks) (unit : LiteralUnit) : Marks :=
  ⟨marks.stop, marks.stop + byteCount unit.written⟩

theorem pass_unit (marks : Marks) (unit : LiteralUnit) (s : Text) :
    pass marks (unit.written ++ s) = pass (marks.behind unit) s := by
  cases unit with
  | plain c h =>
      obtain ⟨h₁, h₂, h₃⟩ := isPlain_iff.1 h
      rw [LiteralUnit.written, List.singleton_append,
        pass.eq_4 marks c s (by simp [h₃]) (by simp [h₃]), if_neg (by simp [h₁, h₂])]
      rfl
  | escaped c h =>
      simp [LiteralUnit.written, pass, h, behind, byteCount, Nat.add_assoc]

theorem pass_written (marks : Marks) (units : List LiteralUnit) (s : Text) :
    pass marks (written units ++ s) = pass (units.foldl behind marks) s := by
  induction units generalizing marks with
  | nil => rfl
  | cons unit units ih => rw [written_cons, List.append_assoc, pass_unit, ih, List.foldl_cons]

/-- The marks go no further where no unit stands. -/
theorem pass_of_unitless (marks : Marks) {s : Text} (h : Unitless s) : pass marks s = marks := by
  fun_cases pass marks s with
  | case1 => rfl
  | case2 => rfl
  | case3 c s hc => rfl
  | case4 c s hc => exact absurd rfl (h (.escaped c (by simpa using hc)) s)
  | case5 c s lone pair hc => rfl
  | case6 c s lone pair hc =>
      have hplain : isPlain c = true :=
        isPlain_iff.2 ⟨by simp_all, by simp_all, ne_backslash lone pair⟩
      exact absurd rfl (h (.plain c hplain) s)

/-- The second mark is behind all the units. -/
theorem stop_foldl_behind (marks : Marks) (units : List LiteralUnit) :
    (units.foldl behind marks).stop = marks.stop + byteCount (written units) := by
  induction units generalizing marks with
  | nil => rfl
  | cons unit units ih =>
      rw [List.foldl_cons, ih, written_cons, byteCount_append, behind, Nat.add_assoc]

/-- The first mark is before the last unit, and the second one behind it. -/
theorem pass_start (units : List LiteralUnit) (unit : LiteralUnit) {rest : Text}
    (h : Unitless rest) :
    pass ⟨0, 0⟩ (written (units ++ [unit]) ++ rest) =
      ⟨byteCount (written units), byteCount (written (units ++ [unit]))⟩ := by
  rw [pass_written, pass_of_unitless _ h, List.foldl_append, List.foldl_cons, List.foldl_nil, behind,
    stop_foldl_behind, written_append, byteCount_append]
  simp

end Marks

/-! ### Reading by the marks -/

/-- A text in two parts, cut some bytes behind its start.  It cannot be cut inside of a character, or
behind its end. -/
def cutBytes? : Nat → Text → Option (Text × Text)
  | bytes, [] => if bytes = 0 then some ([], []) else none
  | bytes, c :: s =>
      if bytes = 0 then some ([], c :: s)
      else if bytes < c.utf8Size then none
      else (cutBytes? (bytes - c.utf8Size) s).map fun halves => (c :: halves.1, halves.2)

/-- The first bytes of a text as a run, if there are any, and what follows them. -/
def cutRun? (bytes : Nat) (s : Text) : Option (Option (Text × Text)) :=
  if bytes = 0 then some none else (cutBytes? bytes s).map some

/-- Reads up to the second mark, or only up to the first one if a brace opens behind the second.  There
is no answer if the text cannot be cut there. -/
def readMarked? (s : Text) : Option (Option (Text × Text)) := do
  let marks := Marks.pass ⟨0, 0⟩ s
  let (_, rest) ← cutBytes? marks.stop s
  cutRun? (if opensBrace rest then marks.last else marks.stop) s

/-- A text can be cut behind any of its characters. -/
theorem cutBytes?_append (s t : Text) : cutBytes? (byteCount s) (s ++ t) = some (s, t) := by
  induction s with
  | nil => cases t <;> rfl
  | cons c s ih =>
      have hpos := c.utf8Size_pos
      have hcount : byteCount (c :: s) = c.utf8Size + byteCount s := rfl
      have hzero : byteCount (c :: s) ≠ 0 := by omega
      have hle : ¬byteCount (c :: s) < c.utf8Size := by omega
      have hsub : byteCount (c :: s) - c.utf8Size = byteCount s := by omega
      rw [List.cons_append, cutBytes?, if_neg hzero, if_neg hle, hsub, ih]
      rfl

/-- A cut behind units gives what is read, if reading stops there. -/
theorem cutRun?_written (units : List LiteralUnit) {rest : Text} (stops : Stops rest)
    (brace : units ≠ [] → opensBrace rest = false) :
    cutRun? (byteCount (written units)) (written units ++ rest) =
      some (read? (written units ++ rest)) := by
  by_cases hunits : units = []
  · subst hunits
    rw [written_nil, List.nil_append, read?_of_stops stops]
    rfl
  · have hpos : byteCount (written units) ≠ 0 :=
      mt byteCount_eq_zero_iff.1 (written_ne_nil hunits)
    rw [cutRun?, if_neg hpos, cutBytes?_append, read?_written hunits stops (brace hunits)]
    rfl

theorem readMarked?_of_cut {s run rest : Text} {marks : Marks} (hpass : Marks.pass ⟨0, 0⟩ s = marks)
    (hcut : cutBytes? marks.stop s = some (run, rest)) :
    readMarked? s = cutRun? (if opensBrace rest then marks.last else marks.stop) s := by
  simp [readMarked?, hpass, hcut]

/-- **Reading by the marks never cuts inside of a character, and is reading.** -/
theorem readMarked?_eq (s : Text) : readMarked? s = some (read? s) := by
  obtain ⟨units, rest, rfl, hrest⟩ := exists_units_append s
  obtain rfl | ⟨units, unit, rfl⟩ := List.eq_nil_or_concat' units
  · -- no unit stands at the start, and both marks stay there
    have hpass : Marks.pass ⟨0, 0⟩ (written [] ++ rest) = ⟨0, 0⟩ := Marks.pass_of_unitless _ hrest
    rw [readMarked?_of_cut hpass (cutBytes?_append [] rest), ite_self]
    exact cutRun?_written [] hrest.stops (absurd rfl)
  · rw [readMarked?_of_cut (Marks.pass_start units unit hrest) (cutBytes?_append _ rest)]
    cases hbrace : opensBrace rest with
    | false => exact cutRun?_written (units ++ [unit]) hrest.stops fun _ => hbrace
    | true =>
        -- the last unit is given back
        obtain ⟨t, rfl⟩ := exists_of_opensBrace hbrace
        have hrun := cutRun?_written units (stops_unit unit t) fun _ => opensBrace_unit unit _
        simpa using hrun

/-- The last unit is given back for the brace behind it.  The first character takes two bytes, and
nothing is cut inside of it. -/
example : Marks.pass ⟨0, 0⟩ "é\\\x7b$\x7bn\x7d".toList = ⟨4, 5⟩ ∧
    readMarked? "é\\\x7b$\x7bn\x7d".toList = some (some ("é\\\x7b".toList, "$\x7bn\x7d".toList)) ∧
    cutBytes? 1 "é\\\x7b".toList = none := by
  decide

/-! ### What is read -/

/-- **What is read at the start of a text is its longest run**, also by the marks, and nothing is read
only where there is no run.  The units of what is read are known from it, and resolving its escapes
gives what they mean, one character for each of them. -/
theorem reads_longest_run (s : Text) :
    readMarked? s = some (read? s) ∧
      (∀ run rest, read? s = some (run, rest) ↔ LongestRun s run rest) ∧
      (read? s = none ↔ ∀ run rest, ¬Run s run rest) ∧
      ∀ run rest, read? s = some (run, rest) →
        ∃! units, written units = run ∧ unescape run = meaning units ∧
          (unescape run).length = units.length := by
  refine ⟨readMarked?_eq s, fun run rest => read?_eq_some_iff, read?_eq_none_iff, ?_⟩
  intro run rest h
  obtain ⟨units, -, rfl, -, -⟩ := exists_units_of_read? h
  have hmeaning := unescape_written units
  refine ⟨units, ⟨rfl, hmeaning, ?_⟩, ?_⟩
  · rw [hmeaning]
    exact List.length_map _
  · intro other hother
    exact written_injective hother.1

/-- A run with two backslashes in a row, an escaped brace, and the symbol of a placeholder behind it;
and a text whose only unit has a brace behind it. -/
theorem reads_longest_run_givenBack :
    read? "é\\\\\\\x7bx$\x7bn\x7d".toList =
        some ("é\\\\\\\x7bx".toList, "$\x7bn\x7d".toList) ∧
      LongestRun "é\\\\\\\x7bx$\x7bn\x7d".toList "é\\\\\\\x7bx".toList
        "$\x7bn\x7d".toList ∧
      (∃! units, written units = "é\\\\\\\x7bx".toList ∧
        unescape "é\\\\\\\x7bx".toList = meaning units ∧
          (unescape "é\\\\\\\x7bx".toList).length = units.length) ∧
      read? "\\\x7b\x7b".toList = none ∧ ∀ run rest, ¬Run "\\\x7b\x7b".toList run rest := by
  have hread : read? "é\\\\\\\x7bx$\x7bn\x7d".toList =
      some ("é\\\\\\\x7bx".toList, "$\x7bn\x7d".toList) := by
    decide
  have hnone : read? "\\\x7b\x7b".toList = none := by
    decide
  obtain ⟨-, hlongest, -, hunits⟩ := reads_longest_run "é\\\\\\\x7bx$\x7bn\x7d".toList
  obtain ⟨-, -, hnothing, -⟩ := reads_longest_run "\\\x7b\x7b".toList
  exact ⟨hread, (hlongest _ _).1 hread, hunits _ _ hread, hnone, hnothing.1 hnone⟩

end SafeTemplate.Literal
