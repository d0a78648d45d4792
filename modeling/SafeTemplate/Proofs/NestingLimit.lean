/-
**What the nesting limit decides.**

Branches may nest only so deep.  The limit is looked at where a branch starts, before anything in the
branch is read, so a template may be rejected for its depth although it has another fault further on.
A higher limit lets the reader go on to that fault; it changes nothing about a template that was
judged on its merits.

Two readers are compared, the second of which may go deeper.  They read alike, piece by piece, except
that the first may give up for the depth; then nothing is said about the second.  The comparison
keeps account of the braces on the way: each branch stands behind one, so the first reader gives up
only in a text with more opening braces than its limit.

Main definitions:

* `Rejection.IsTooDeep`, `Template.TooDeep` — a rejection for the depth, and a result that is one;
* `Template.Outlasts` — how the results of the two readers compare;
* `Template.BranchesOutlast` — the same for all branches in a text.

Main results:

* `Template.outlasts_readParts`, `Template.outlasts_readFrame` — reading on with more levels;
* `Template.parseWithin_limit` — **a higher limit only lifts rejections for the depth**, and a limit
  of as many levels as the text has braces is never exceeded.
-/

import SafeTemplate.Proofs.Trace

set_option autoImplicit false

namespace SafeTemplate

/-- Whether a template is rejected because its branches nest too deep. -/
def Rejection.IsTooDeep (rejection : Rejection) : Prop :=
  ∃ limit, rejection.cause = .tooDeep limit

/-- A template further out leaves the cause as it is. -/
theorem Rejection.isTooDeep_within {rejection : Rejection} {s : Text} :
    (rejection.within s).IsTooDeep ↔ rejection.IsTooDeep :=
  Iff.rfl

namespace Template

/-! ### Two readers -/

section Outlasts

variable {α : Type} {deep deep' : Prop} {result result' : Except Rejection α}

/-- Whether reading ends with a rejection for the depth. -/
def TooDeep (result : Except Rejection α) : Prop :=
  ∃ rejection, result = .error rejection ∧ rejection.IsTooDeep

/-- How a result compares with that of a reader that may go deeper.  Only where `deep` holds may the
first reader have given up for the depth. -/
inductive Outlasts (deep : Prop) : Except Rejection α → Except Rejection α → Prop
  | ok (value : α) : Outlasts deep (.ok value) (.ok value)
  | error {rejection : Rejection} (h : ¬rejection.IsTooDeep) :
      Outlasts deep (.error rejection) (.error rejection)
  | tooDeep {rejection : Rejection} (h : rejection.IsTooDeep) (hdeep : deep)
      (result' : Except Rejection α) : Outlasts deep (.error rejection) result'

theorem Outlasts.mono (h : Outlasts deep result result') (hdeep : deep → deep') :
    Outlasts deep' result result' := by
  cases h with
  | ok value => exact .ok value
  | error h => exact .error h
  | tooDeep h hd result' => exact .tooDeep h (hdeep hd) result'

theorem Outlasts.eq (h : Outlasts deep result result') (hresult : ¬TooDeep result) :
    result' = result := by
  cases h with
  | ok value => rfl
  | error h => rfl
  | tooDeep h hdeep result' => exact absurd ⟨_, rfl, h⟩ hresult

theorem Outlasts.deep_of_tooDeep (h : Outlasts deep result result') (hresult : TooDeep result) :
    deep := by
  obtain ⟨rejection, heq, hrejection⟩ := hresult
  cases h with
  | ok value => cases heq
  | error h =>
      cases heq
      exact absurd hrejection h
  | tooDeep h hdeep result' => exact hdeep

end Outlasts

/-- The faults of a template itself say nothing about the depth. -/
theorem not_isTooDeep {cause : Rejection.Cause} (h : ∀ limit, cause ≠ .tooDeep limit)
    (fragments : List Text) : ¬(Rejection.mk cause fragments).IsTooDeep := by
  rintro ⟨limit, hcause⟩
  exact h limit hcause

theorem ne_tooDeep_of_addPlaceholder {frame : Frame} {placeholder : Placeholder}
    {cause : Rejection.Cause} (h : frame.addPlaceholder placeholder = .error cause) (limit : Nat) :
    cause ≠ .tooDeep limit := by
  unfold Frame.addPlaceholder at h
  split at h <;> cases h
  simp

theorem ne_tooDeep_of_close {frame : Frame} {cause : Rejection.Cause}
    (h : frame.close = .error cause) (limit : Nat) : cause ≠ .tooDeep limit := by
  unfold Frame.close at h
  split at h
  · cases h
    simp
  · split at h <;> cases h

/-! ### Branches in a text -/

/-- How two readers compare on every branch in `s`.  A branch stands behind an opening brace. -/
def BranchesOutlast (deep : Prop) (branch branch' : BranchReader) (s : Text) : Prop :=
  ∀ (residue : Residue) (s' : Text), '{' :: s' <:+ s →
    Outlasts deep (branch residue s') (branch' residue s')

theorem BranchesOutlast.of_suffix {deep : Prop} {branch branch' : BranchReader} {s t : Text}
    (h : BranchesOutlast deep branch branch' t) (hs : s <:+ t) :
    BranchesOutlast deep branch branch' s :=
  fun residue s' hs' => h residue s' (hs'.trans hs)

section Branches

variable {branch : Text → Except Rejection (Tree × Text)} {count : Nat} {s rest : Text} {tree : Tree}

theorem readBranches_error {rejection : Rejection} (h : branch s = .error rejection) :
    readBranches branch (count + 1) ('{' :: s) = .error rejection := by
  simp [readBranches, h]

theorem readBranches_closed (h : branch s = .ok (tree, '}' :: rest)) :
    readBranches branch (count + 1) ('{' :: s) =
      match readBranches branch count rest with
      | .error rejection => .error rejection
      | .ok (trees, rest) => .ok (tree :: trees, rest) := by
  rw [readBranches, h]
  rfl

theorem readBranches_unclosed (h : branch s = .ok (tree, rest)) (hrest : rest.head? ≠ some '}') :
    readBranches branch (count + 1) ('{' :: s) = .error ⟨.unclosedBranch rest, []⟩ := by
  rw [readBranches, h]
  split
  · next heq => cases heq
  · next heq =>
      cases heq
      exact absurd rfl hrest
  · next heq =>
      cases heq
      rfl

end Branches

section Readers

variable {deep : Prop} {branch branch' : BranchReader} (hleaves : Leaves branch)
include hleaves

theorem outlasts_readBranches {s : Text} (h : BranchesOutlast deep branch branch' s)
    (residue : Residue) (count : Nat) :
    Outlasts deep (readBranches (branch residue) count s) (readBranches (branch' residue) count s) := by
  induction count generalizing s with
  | zero =>
      simp only [readBranches]
      exact .ok ([], s)
  | succ count ih =>
      by_cases hopens : Literal.opensBrace s = false
      · rw [readBranches_of_not_opensBrace _ _ hopens, readBranches_of_not_opensBrace _ _ hopens]
        exact .ok ([], s)
      · obtain ⟨s, rfl⟩ := Literal.exists_of_opensBrace (by simpa using hopens)
        have hbranch := h residue s List.suffix_rfl
        generalize hread : branch residue s = result, hread' : branch' residue s = result' at hbranch
        cases hbranch with
        | ok value =>
            obtain ⟨tree, rest⟩ := value
            by_cases hclosing : rest.head? = some '}'
            · obtain ⟨rest, rfl⟩ := List.head?_eq_some_iff.1 hclosing
              have hrest : rest <:+ '{' :: s :=
                (List.suffix_cons '}' rest).trans ((hleaves hread).trans (List.suffix_cons '{' s))
              have hmore := ih (h.of_suffix hrest)
              rw [readBranches_closed hread, readBranches_closed hread']
              generalize readBranches (branch residue) count rest = more,
                readBranches (branch' residue) count rest = more' at hmore
              cases hmore with
              | ok value => exact .ok _
              | error hcause => exact .error hcause
              | tooDeep hcause hdeep result' => exact .tooDeep hcause hdeep _
            · rw [readBranches_unclosed hread hclosing, readBranches_unclosed hread' hclosing]
              exact .error (not_isTooDeep (by simp) [])
        | error hcause =>
            rw [readBranches_error hread, readBranches_error hread']
            exact .error hcause
        | tooDeep hcause hdeep result' =>
            rw [readBranches_error hread]
            exact .tooDeep hcause hdeep _

theorem outlasts_readPlaceholder {s : Text} (h : BranchesOutlast deep branch branch' s)
    (residue : Residue) (head : Placeholder.Head) :
    Outlasts deep (readPlaceholder (branch residue) head s)
      (readPlaceholder (branch' residue) head s) := by
  unfold readPlaceholder
  split
  · exact .error (not_isTooDeep (by simp) [])
  · have hbranches := outlasts_readBranches hleaves h residue 2
    generalize readBranches (branch residue) 2 s = result,
      readBranches (branch' residue) 2 s = result' at hbranches
    cases hbranches with
    | ok value => exact .ok _
    | error hcause => exact .error hcause
    | tooDeep hcause hdeep result' => exact .tooDeep hcause hdeep _
  · exact .ok _

/-- **Reading parts with more levels** changes nothing, unless a branch is too deep for the first
reader. -/
theorem outlasts_readParts {s : Text} (h : BranchesOutlast deep branch branch' s) (fuel : Nat)
    (frame : Frame) :
    Outlasts deep (readParts branch fuel frame s) (readParts branch' fuel frame s) := by
  induction fuel generalizing frame s with
  | zero => exact .ok (frame, s)
  | succ fuel ih =>
      rw [readParts, readParts]
      split
      · next run rest hread => exact ih (h.of_suffix (properSuffix_of_read?_literal hread).1) _
      · split
        · exact .ok (frame, s)
        · next head rest hhead =>
            have hrest := h.of_suffix (properSuffix_of_read?_head hhead).1
            have hplaceholder := outlasts_readPlaceholder hleaves hrest frame.here head
            have hleft := @suffix_of_readPlaceholder _ hleaves frame.here head rest
            generalize readPlaceholder (branch frame.here) head rest = result,
              readPlaceholder (branch' frame.here) head rest = result' at hplaceholder hleft
            cases hplaceholder with
            | ok value =>
                obtain ⟨placeholder, rest'⟩ := value
                dsimp only
                split
                · next cause hadd => exact .error (not_isTooDeep (ne_tooDeep_of_addPlaceholder hadd) [])
                · exact ih (hrest.of_suffix (hleft rfl)) _
            | error hcause => exact .error hcause
            | tooDeep hcause hdeep result' => exact .tooDeep hcause hdeep _

end Readers

/-! ### A whole template -/

/-- A branch in a text has one opening brace less than the text. -/
theorem count_of_suffix {s s' : Text} (h : '{' :: s' <:+ s) : s'.count '{' + 1 ≤ s.count '{' := by
  have hle := h.sublist.count_le '{'
  rwa [List.count_cons_self] at hle

/-- **Reading with more levels** changes nothing, unless the text has more opening braces than the
first reader may enter levels. -/
theorem outlasts_readFrame (limit limit' : Nat) {levels levels' : Nat} (hlevels : levels ≤ levels')
    (residue : Residue) (s : Text) :
    Outlasts (levels ≤ s.count '{') (readFrame limit levels residue s)
      (readFrame limit' levels' residue s) := by
  induction levels generalizing levels' residue s with
  | zero => exact .tooDeep ⟨limit, rfl⟩ (Nat.zero_le _) _
  | succ levels ih =>
      obtain ⟨levels', rfl⟩ : ∃ n, levels' = n + 1 := ⟨levels' - 1, by omega⟩
      have hbranches : BranchesOutlast (levels + 1 ≤ s.count '{') (readFrame limit levels)
          (readFrame limit' levels') s := by
        intro residue' s' hs'
        have hcount := count_of_suffix hs'
        exact (ih (Nat.le_of_succ_le_succ hlevels) residue' s').mono (by omega)
      have hparts := outlasts_readParts (leaves_readFrame limit levels) hbranches s.length
        (.opened residue)
      rw [readFrame, readFrame]
      generalize readParts (readFrame limit levels) s.length (.opened residue) s = result,
        readParts (readFrame limit' levels') s.length (.opened residue) s = result' at hparts
      cases hparts with
      | ok value =>
          obtain ⟨frame, rest⟩ := value
          dsimp only
          split
          · next cause hclose => exact .error (not_isTooDeep (ne_tooDeep_of_close hclose) [s])
          · exact .ok _
      | error hcause => exact .error (mt Rejection.isTooDeep_within.1 hcause)
      | tooDeep hcause hdeep result' => exact .tooDeep (Rejection.isTooDeep_within.2 hcause) hdeep _

theorem outlasts_parseWithin {limit limit' : Nat} (hlimit : limit ≤ limit') (residue : Residue)
    (template : Text) :
    Outlasts (limit + 1 ≤ template.count '{') (parseWithin limit residue template)
      (parseWithin limit' residue template) := by
  have hframe := outlasts_readFrame limit limit' (Nat.succ_le_succ hlimit) residue template
  unfold parseWithin
  generalize readFrame limit (limit + 1) residue template = result,
    readFrame limit' (limit' + 1) residue template = result' at hframe
  cases hframe with
  | ok value =>
      obtain ⟨tree, rest⟩ := value
      cases rest with
      | nil => exact .ok tree
      | cons c rest => exact .error (not_isTooDeep (by simp) [template])
  | error hcause => exact .error hcause
  | tooDeep hcause hdeep result' => exact .tooDeep hcause hdeep _

/-- **A higher limit only lifts rejections for the depth.**  A template that is not rejected for its
depth has the same meaning, or is rejected for the same cause and with the same trace, under every
higher limit.  A limit that is no less than the number of opening braces is never exceeded. -/
theorem parseWithin_limit (residue : Residue) (template : Text) :
    (∀ limit limit', limit ≤ limit' → ¬TooDeep (parseWithin limit residue template) →
        parseWithin limit' residue template = parseWithin limit residue template) ∧
      ∀ limit, template.count '{' ≤ limit → ¬TooDeep (parseWithin limit residue template) := by
  constructor
  · intro limit limit' hlimit hresult
    exact (outlasts_parseWithin hlimit residue template).eq hresult
  · intro limit hcount hdeep
    have hbraces := (outlasts_parseWithin le_rfl residue template).deep_of_tooDeep hdeep
    omega

/-- Behind a branch of a branch another branch leaves a tag open.  One level is not enough to come to
that place, two are, and more find the same fault. -/
theorem parseWithin_limit_unclosed :
    TooDeep (parseWithin 1 .topLevel "?{a}{?{b}{x}}{<i}".toList) ∧
      ¬TooDeep (parseWithin 2 .topLevel "?{a}{?{b}{x}}{<i}".toList) ∧
      parseWithin 9 .topLevel "?{a}{?{b}{x}}{<i}".toList =
        .error ⟨.leftOpen ⟨"<i".toList⟩,
          ["<i\x7d".toList, "?{a}{?{b}{x}}{<i}".toList]⟩ ∧
      ¬TooDeep (parseWithin 5 .topLevel "?{a}{?{b}{x}}{<i}".toList) := by
  have hlow : parseWithin 1 .topLevel "?{a}{?{b}{x}}{<i}".toList =
      .error ⟨.tooDeep 1, ["x\x7d\x7d{<i}".toList, "?{b}{x}\x7d{<i}".toList,
        "?{a}{?{b}{x}}{<i}".toList]⟩ := by
    cbv
  have hhigh : parseWithin 2 .topLevel "?{a}{?{b}{x}}{<i}".toList =
      .error ⟨.leftOpen ⟨"<i".toList⟩,
        ["<i\x7d".toList, "?{a}{?{b}{x}}{<i}".toList]⟩ := by
    cbv
  have hmerits : ¬TooDeep (parseWithin 2 .topLevel "?{a}{?{b}{x}}{<i}".toList) := by
    rw [hhigh]
    rintro ⟨rejection, heq, limit, hcause⟩
    cases heq
    cases hcause
  obtain ⟨hsame, hnever⟩ :=
    parseWithin_limit .topLevel "?{a}{?{b}{x}}{<i}".toList
  exact ⟨⟨_, hlow, 1, rfl⟩, hmerits, (hsame 2 9 (by decide) hmerits).trans hhigh,
    hnever 5 (by decide)⟩

end Template

end SafeTemplate
