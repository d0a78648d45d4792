/-
**What the trace of a rejection tells.**

A rejection carries the text of every template around the place where reading failed, from the
innermost branch out to the whole template.  Each of these texts runs to the end of the input, so each
is a proper end of the next.  How many there are is bounded by the levels that may be entered, and
only a rejection for its depth goes one level further.

A template fails in one of two ways: by a fault of its own, which has no trace yet, or because a
branch in it fails.  The trace is built along this case distinction, one level at a time.

Main definitions:

* `Text.ProperSuffix` — an end of a text that is not all of it;
* `Template.Fails` — how reading the parts of a template fails;
* `Template.Fits`, `Template.Traces` — what a cause tells about a trace, and a trace about a template.

Main results:

* `Template.fails_readParts` — reading parts fails only as `Template.Fails` says;
* `Template.stops_readParts` — reading parts stops only where no part starts;
* `Template.traces_readFrame` — every template around the place adds its text to the trace;
* `Template.parseWithin_trace` — **the trace of a rejection is faithful**.
-/

import SafeTemplate.Proofs.Grammar

set_option autoImplicit false

namespace SafeTemplate

/-! ### Proper ends -/

/-- Whether `s` is an end of `t`, and not all of it. -/
def Text.ProperSuffix (s t : Text) : Prop :=
  s <:+ t ∧ s ≠ t

namespace Text.ProperSuffix

theorem of_append {before s : Text} (h : before ≠ []) : ProperSuffix s (before ++ s) := by
  refine ⟨List.suffix_append before s, ?_⟩
  intro heq
  exact h (List.append_left_eq_self.1 heq.symm)

theorem of_suffix {s t u : Text} (h : ProperSuffix s t) (hu : t <:+ u) : ProperSuffix s u := by
  refine ⟨h.1.trans hu, ?_⟩
  rintro rfl
  exact h.2 (h.1.eq_of_length_le hu.length_le)

theorem suffix_trans {s t u : Text} (hs : s <:+ t) (h : ProperSuffix t u) : ProperSuffix s u := by
  refine ⟨hs.trans h.1, ?_⟩
  rintro rfl
  exact h.2 (h.1.eq_of_length_le hs.length_le)

theorem length_lt {s t : Text} (h : ProperSuffix s t) : s.length < t.length :=
  Nat.lt_of_le_of_ne h.1.length_le fun heq => h.2 (h.1.eq_of_length heq)

end Text.ProperSuffix

namespace Template

open Text (ProperSuffix)

/-- A run of literal text that is read leaves a proper end. -/
theorem properSuffix_of_read?_literal {s run rest : Text}
    (h : Literal.read? s = some (run, rest)) : ProperSuffix rest s := by
  obtain ⟨hne, rfl⟩ := Literal.read?_eq_some h
  exact .of_append hne

/-- A head that is read leaves a proper end. -/
theorem properSuffix_of_read?_head {s rest : Text} {head : Placeholder.Head}
    (h : Placeholder.Head.read? s = some (head, rest)) : ProperSuffix rest s := by
  obtain rfl := Placeholder.Head.read?_eq_some h
  exact .of_append (List.cons_ne_nil _ _)

/-! ### What a reader leaves -/

/-- What a reader of branches leaves is an end of what it was given. -/
def Leaves (branch : BranchReader) : Prop :=
  ∀ ⦃residue : Residue⦄ ⦃s rest : Text⦄ ⦃tree : Tree⦄,
    branch residue s = .ok (tree, rest) → rest <:+ s

theorem leaves_readFrame (limit levels : Nat) : Leaves (readFrame limit levels) := by
  intro residue s rest tree h
  obtain ⟨source, htext, -⟩ := sound_readFrame limit levels h
  exact ⟨source.text, htext⟩

section Leaves

variable {branch : BranchReader} (hleaves : Leaves branch) {residue : Residue}
include hleaves

theorem suffix_of_readBranches {count : Nat} {s rest : Text} {trees : List Tree}
    (h : readBranches (branch residue) count s = .ok (trees, rest)) : rest <:+ s := by
  induction count generalizing s trees with
  | zero =>
      obtain ⟨-, rfl⟩ := readBranches_zero h
      exact List.suffix_rfl
  | succ count ih =>
      rcases readBranches_succ h with ⟨-, rfl⟩ | ⟨tree, s₁, s₂, more, rfl, hbranch, hmore, -⟩
      · exact List.suffix_rfl
      · have hclosing : s₂ <:+ s₁ := (List.suffix_cons '}' s₂).trans (hleaves hbranch)
        exact (ih hmore).trans (hclosing.trans (List.suffix_cons '{' s₁))

theorem suffix_of_readPlaceholder {head : Placeholder.Head} {s rest : Text}
    {placeholder : Placeholder}
    (h : readPlaceholder (branch residue) head s = .ok (placeholder, rest)) : rest <:+ s := by
  rcases readPlaceholder_cases h with ⟨kind, -, -, rfl⟩ | ⟨-, trees, hbranches, -⟩
  · exact List.suffix_rfl
  · exact suffix_of_readBranches hleaves hbranches

/-- **Reading parts stops only where no part starts**, if the fuel is enough for the text. -/
theorem stops_readParts {fuel : Nat} {frame frame' : Frame} {s rest : Text}
    (hfuel : s.length ≤ fuel) (h : readParts branch fuel frame s = .ok (frame', rest)) :
    Literal.read? rest = none ∧ Placeholder.Head.read? rest = none := by
  induction fuel generalizing frame s with
  | zero =>
      obtain rfl : s = [] := List.length_eq_zero_iff.1 (Nat.le_zero.1 hfuel)
      simp only [readParts, Except.ok.injEq, Prod.mk.injEq] at h
      obtain ⟨-, rfl⟩ := h
      exact ⟨rfl, rfl⟩
  | succ fuel ih =>
      rw [readParts] at h
      split at h
      · next run rest₁ hread =>
          have hlt := (properSuffix_of_read?_literal hread).length_lt
          exact ih (by omega) h
      · next hliteral =>
          split at h
          · next hhead =>
              simp only [Except.ok.injEq, Prod.mk.injEq] at h
              obtain ⟨-, rfl⟩ := h
              exact ⟨hliteral, hhead⟩
          · next head rest₁ hhead =>
              split at h
              · cases h
              · next placeholder rest₂ hplaceholder =>
                  have hlt := (properSuffix_of_read?_head hhead).length_lt
                  have hle := (suffix_of_readPlaceholder hleaves hplaceholder).length_le
                  split at h
                  · cases h
                  · exact ih (by omega) h

end Leaves

/-- A whole template stops only where no part starts, too. -/
theorem stops_readFrame {limit levels : Nat} {residue : Residue} {s rest : Text} {tree : Tree}
    (h : readFrame limit levels residue s = .ok (tree, rest)) :
    Literal.read? rest = none ∧ Placeholder.Head.read? rest = none := by
  cases levels with
  | zero => cases h
  | succ levels =>
      rw [readFrame] at h
      split at h
      · cases h
      · next hparts =>
          split at h
          · cases h
          · cases h
            exact stops_readParts (leaves_readFrame limit levels) le_rfl hparts

/-! ### How a template fails -/

/-- How reading the parts of a template that starts at `s` fails: by a fault of its own, or in a branch
further on. -/
inductive Fails (branch : BranchReader) (s : Text) : Rejection → Prop
  | unknownSymbol (symbol : Char) : Fails branch s ⟨.unknownSymbol symbol, []⟩
  | misplaced (kind : Placeholder.Kind) (residue : Residue) :
      Fails branch s ⟨.misplaced kind residue, []⟩
  | unclosedBranch {rest : Text} (further : ProperSuffix rest s) (unclosed : rest.head? ≠ some '}') :
      Fails branch s ⟨.unclosedBranch rest, []⟩
  | branch {residue : Residue} {s' : Text} {rejection : Rejection} (further : ProperSuffix s' s)
      (h : branch residue s' = .error rejection) : Fails branch s rejection

theorem Fails.of_suffix {branch : BranchReader} {s t : Text} {rejection : Rejection}
    (h : Fails branch s rejection) (ht : s <:+ t) : Fails branch t rejection := by
  cases h with
  | unknownSymbol symbol => exact .unknownSymbol symbol
  | misplaced kind residue => exact .misplaced kind residue
  | unclosedBranch further unclosed => exact .unclosedBranch (further.of_suffix ht) unclosed
  | branch further h => exact .branch (further.of_suffix ht) h

section Fails

variable {branch : BranchReader} (hleaves : Leaves branch) {residue : Residue} {rejection : Rejection}
include hleaves

theorem fails_readBranches {count : Nat} {s : Text}
    (h : readBranches (branch residue) count s = .error rejection) : Fails branch s rejection := by
  induction count generalizing s with
  | zero => simp [readBranches] at h
  | succ count ih =>
      unfold readBranches at h
      split at h
      · next n s₁ hn =>
          cases hn
          have hopening : ProperSuffix s₁ ('{' :: s₁) := .of_append (List.cons_ne_nil '{' [])
          split at h
          · next hbranch =>
              cases h
              exact .branch hopening hbranch
          · next tree s₂ hbranch =>
              have hclosing : s₂ <:+ s₁ := (List.suffix_cons '}' s₂).trans (hleaves hbranch)
              split at h
              · next hmore =>
                  cases h
                  exact (ih hmore).of_suffix (hclosing.trans hopening.1)
              · cases h
          · next tree s₂ hunclosed hbranch =>
              cases h
              refine .unclosedBranch (.suffix_trans (hleaves hbranch) hopening) ?_
              intro hclosing
              obtain ⟨rest, rfl⟩ := List.head?_eq_some_iff.1 hclosing
              exact hunclosed rest rfl
      · cases h

theorem fails_readPlaceholder {head : Placeholder.Head} {s : Text}
    (h : readPlaceholder (branch residue) head s = .error rejection) : Fails branch s rejection := by
  unfold readPlaceholder at h
  split at h
  · cases h
    exact .unknownSymbol head.symbol
  · split at h
    · next hbranches =>
        cases h
        exact fails_readBranches hleaves hbranches
    · cases h
  · cases h

/-- **Reading parts fails by a fault of the template, or in a branch further on.** -/
theorem fails_readParts {fuel : Nat} {frame : Frame} {s : Text}
    (h : readParts branch fuel frame s = .error rejection) : Fails branch s rejection := by
  induction fuel generalizing frame s with
  | zero => simp [readParts] at h
  | succ fuel ih =>
      rw [readParts] at h
      split at h
      · next run rest hread => exact (ih h).of_suffix (properSuffix_of_read?_literal hread).1
      · split at h
        · cases h
        · next head rest hhead =>
            have hrest := (properSuffix_of_read?_head hhead).1
            split at h
            · next hplaceholder =>
                cases h
                exact (fails_readPlaceholder hleaves hplaceholder).of_suffix hrest
            · next placeholder rest' hplaceholder =>
                have hrest' := suffix_of_readPlaceholder hleaves hplaceholder
                split at h
                · next cause hadd =>
                    cases h
                    unfold Frame.addPlaceholder at hadd
                    split at hadd
                    · cases hadd
                    · cases hadd
                      exact .misplaced _ _
                · exact (ih h).of_suffix (hrest'.trans hrest)

end Fails

/-! ### Traces -/

/-- What a cause tells about a trace, where `levels` more levels may be entered. -/
def Fits (limit levels : Nat) (fragments : List Text) : Rejection.Cause → Prop
  | .strayText _ => False
  | .unclosedBranch rest =>
      (∃ inner outer, fragments = inner :: outer ∧ rest.ProperSuffix inner) ∧
        rest.head? ≠ some '}' ∧ fragments.length ≤ levels
  | .tooDeep ceiling => ceiling = limit ∧ fragments.length = levels + 1
  | _ => fragments.length ≤ levels

/-- What a rejection tells about the template that starts at `s`, where `levels` more levels may be
entered: the trace goes out to this template, each text in it is a proper end of the next, and it
fits the cause. -/
structure Traces (limit levels : Nat) (s : Text) (rejection : Rejection) : Prop where
  ends : ∃ inner, rejection.fragments = inner ++ [s]
  nested : rejection.fragments.IsChain ProperSuffix
  fits : Fits limit levels rejection.fragments rejection.cause

theorem Fits.within {limit levels : Nat} {fragments : List Text} {cause : Rejection.Cause}
    (h : Fits limit levels fragments cause) (s : Text) :
    Fits limit (levels + 1) (fragments ++ [s]) cause := by
  cases cause with
  | strayText rest => exact h
  | unclosedBranch rest =>
      obtain ⟨⟨inner, outer, rfl, hrest⟩, hunclosed, hlength⟩ := h
      exact ⟨⟨inner, outer ++ [s], rfl, hrest⟩, hunclosed, by simpa using hlength⟩
  | tooDeep ceiling => exact ⟨h.1, by simpa using h.2⟩
  | unknownSymbol symbol => simpa [Fits] using h
  | misplaced kind residue => simpa [Fits] using h
  | leftOpen residue => simpa [Fits] using h

/-- A fault of the template itself has only its text in the trace. -/
theorem Traces.of_fits {limit levels : Nat} {s : Text} {cause : Rejection.Cause}
    (h : Fits limit levels [s] cause) : Traces limit levels s ⟨cause, [s]⟩ :=
  ⟨⟨[], rfl⟩, .singleton s, h⟩

/-- One template further out adds its text. -/
theorem Traces.within {limit levels : Nat} {s t : Text} {rejection : Rejection}
    (h : Traces limit levels s rejection) (ht : ProperSuffix s t) :
    Traces limit (levels + 1) t (rejection.within t) := by
  refine ⟨⟨rejection.fragments, rfl⟩, ?_, h.fits.within t⟩
  obtain ⟨inner, hinner⟩ := h.ends
  have hnested := h.nested
  rw [hinner] at hnested
  show (rejection.fragments ++ [t]).IsChain ProperSuffix
  rw [hinner, List.append_assoc]
  exact List.isChain_split.2 ⟨hnested, List.isChain_pair.2 ht⟩

/-- What a template adds to the trace of its branches. -/
theorem Fails.traces {branch : BranchReader} {limit levels : Nat}
    (hbranch : ∀ {residue : Residue} {s : Text} {rejection : Rejection},
      branch residue s = .error rejection → Traces limit levels s rejection)
    {s : Text} {rejection : Rejection} (h : Fails branch s rejection) :
    Traces limit (levels + 1) s (rejection.within s) := by
  cases h with
  | unknownSymbol symbol => exact .of_fits (Nat.le_add_left 1 levels)
  | misplaced kind residue => exact .of_fits (Nat.le_add_left 1 levels)
  | unclosedBranch further unclosed =>
      exact .of_fits ⟨⟨s, [], rfl, further⟩, unclosed, Nat.le_add_left 1 levels⟩
  | branch further h => exact (hbranch h).within further

/-- **Every template around the place adds its text to the trace.** -/
theorem traces_readFrame (limit levels : Nat) {residue : Residue} {s : Text} {rejection : Rejection}
    (h : readFrame limit levels residue s = .error rejection) :
    Traces limit levels s rejection := by
  induction levels generalizing residue s rejection with
  | zero =>
      cases h
      exact .of_fits ⟨rfl, rfl⟩
  | succ levels ih =>
      rw [readFrame] at h
      split at h
      · next hparts =>
          cases h
          exact (fails_readParts (leaves_readFrame limit levels) hparts).traces ih
      · split at h
        · next cause hclose =>
            cases h
            unfold Frame.close at hclose
            split at hclose
            · cases hclose
              exact .of_fits (Nat.le_add_left 1 levels)
            · split at hclose <;> cases hclose
        · cases h

/-- **The trace of a rejection is faithful.**  It goes from the innermost template around the place out
to the whole one, each a proper end of the next.  Stray text stands outside of all branches, where no
part starts.  A branch is unclosed before the end of the template that holds the choice, and not at a
closing brace.  Only a template that is too deep has one text more in its trace than levels may be
entered. -/
theorem parseWithin_trace {limit : Nat} {residue : Residue} {template : Text}
    {rejection : Rejection} (h : parseWithin limit residue template = .error rejection) :
    (∃ inner, rejection.fragments = inner ++ [template]) ∧
      rejection.fragments.IsChain ProperSuffix ∧
      match rejection.cause with
      | .strayText rest =>
          rejection.fragments = [template] ∧ rest ≠ [] ∧ rest <:+ template ∧
            Literal.read? rest = none ∧ Placeholder.Head.read? rest = none
      | .unclosedBranch rest =>
          (∃ inner outer, rejection.fragments = inner :: outer ∧ ProperSuffix rest inner) ∧
            rest.head? ≠ some '}' ∧ rejection.fragments.length ≤ limit + 1
      | .tooDeep ceiling => ceiling = limit ∧ rejection.fragments.length = limit + 2
      | _ => rejection.fragments.length ≤ limit + 1 := by
  unfold parseWithin at h
  split at h
  · next hframe =>
      cases h
      obtain ⟨hends, hnested, hfits⟩ := traces_readFrame limit (limit + 1) hframe
      refine ⟨hends, hnested, ?_⟩
      revert hfits
      cases rejection.cause <;> simp [Fits]
  · cases h
  · next tree rest hne hframe =>
      cases h
      exact ⟨⟨[], rfl⟩, .singleton template, rfl, hne, leaves_readFrame limit (limit + 1) hframe,
        stops_readFrame hframe⟩

/-- The branch of a branch is not closed.  The trace holds both templates around that place, each to the
end of the input. -/
theorem parseWithin_trace_unclosed :
    parseWithin 2 .topLevel "x?{a}\x7by?{b}\x7bz".toList =
        .error ⟨.unclosedBranch [], ["y?{b}\x7bz".toList, "x?{a}\x7by?{b}\x7bz".toList]⟩ ∧
      ["y?{b}\x7bz".toList, "x?{a}\x7by?{b}\x7bz".toList].IsChain ProperSuffix ∧
      ProperSuffix [] "y?{b}\x7bz".toList := by
  have h : parseWithin 2 .topLevel "x?{a}\x7by?{b}\x7bz".toList =
      .error ⟨.unclosedBranch [], ["y?{b}\x7bz".toList, "x?{a}\x7by?{b}\x7bz".toList]⟩ := by
    cbv
  obtain ⟨-, hnested, ⟨inner, outer, hfragments, hrest⟩, -, -⟩ := parseWithin_trace h
  obtain ⟨rfl, -⟩ := List.cons.inj hfragments
  exact ⟨h, hnested, hrest⟩

end Template

end SafeTemplate
