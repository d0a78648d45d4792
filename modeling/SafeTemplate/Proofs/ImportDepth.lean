/-
**How deep a source may import.**

An imported file is expanded with one level less than the source that imports it.  The levels only
decide whether there is a result: what a source expands to within some levels, it expands to within
more of them, be it a text or a fault.  So a source has one expansion at most, and what a helper imports
is also what the file expands to as a source of its own.

An expansion is put together from computations that follow each other.  So a property of computations
that goes on from each of them to what follows it holds of a source if it holds of what can be imported.

Main definitions:

* `Project.Imported` — what can be imported;
* `Project.Attempt.Closed` — a property of computations that goes on to what follows them;
* `Project.Attempt.Widens` — where one computation has a result, another one has it, too.

Main results:

* `Project.Attempt.Closed.substitute`, `Project.Attempt.Closed.evaluate`, `Project.Attempt.Closed.call` — a
  closed property holds of a text if it holds of what its blocks insert, of a query if it holds of helper
  calls, and of these if it holds of what can be imported;
* `Project.Attempt.Closed.source` — **a source has a closed property if what can be imported has it**;
* `Project.widens_expand` — **more levels keep what fewer levels give**.
-/

import SafeTemplate.Project.Expansion

set_option autoImplicit false

namespace SafeTemplate

/-! ### What can be imported -/

/-- What can be imported: style sheets, put together, and template files, as one line each. -/
inductive Project.Imported (project : Project) (disk : Disk) : Text → Prop
  | styles {names : List Text} {source : Text}
      (hread : readAll disk (names.map project.stylePath) = .ok source) : Imported project disk source
  | template {name file : Text} (hread : readText disk (project.templatePath name) = .ok file) :
      Imported project disk (templateLine file)

namespace Project.Attempt

/-! ### Closed properties -/

/-- A property of computations, each within any number of levels, is closed if it holds of what ends at
once, and goes on from a computation to what follows it. -/
structure Closed (P : (α : Type) → (Nat → Attempt α) → Prop) : Prop where
  ends : ∀ {α : Type} (result : Except Fault α), P α fun _ => some result
  bind : ∀ {α β : Type} {attempts : Nat → Attempt α} {next : Nat → α → Attempt β}, P α attempts →
    (∀ a, P β fun levels => next levels a) → P β fun levels => attempts levels >>= next levels

namespace Closed

variable {P : (α : Type) → (Nat → Attempt α) → Prop}

/-! ### Queries -/

section Query

variable {data : Json.Members} {call : Nat → Text → List Json.Value → Attempt Json.Value}

mutual

/-- A query has a closed property if helper calls have it. -/
theorem evaluate (hP : Closed P)
    (h : ∀ name arguments, P Json.Value fun levels => call levels name arguments)
    (query : Query) : P Json.Value fun levels => Query.evaluate data (call levels) query := by
  cases query with
  | constant value => exact hP.ends (.ok value)
  | path root steps =>
      simp only [Query.evaluate]
      cases Json.Members.lookup root data with
      | none => exact hP.ends (.error (.undefinedName root))
      | some value => exact hP.ends (Step.applyAll steps value)
  | call helper arguments =>
      simp only [Query.evaluate]
      exact hP.bind (hP.evaluateAll h arguments) fun values => h helper values

theorem evaluateAll (hP : Closed P)
    (h : ∀ name arguments, P Json.Value fun levels => call levels name arguments)
    (queries : List Query) :
    P (List Json.Value) fun levels => Query.evaluateAll data (call levels) queries := by
  cases queries with
  | nil => exact hP.ends (.ok [])
  | cons query more =>
      simp only [Query.evaluateAll]
      exact hP.bind (hP.evaluate h query) fun value => hP.bind (hP.evaluateAll h more) fun values =>
        hP.ends (.ok (value :: values))

end

end Query

/-! ### Blocks -/

variable (hP : Closed P)

include hP

theorem map {α β : Type} {attempts : Nat → Attempt α} (h : P α attempts) (f : α → β) :
    P β fun levels => f <$> attempts levels := by
  simp only [← bind_pure_comp]
  exact hP.bind h fun a => hP.ends (.ok (f a))

/-- A text has a closed property if what its blocks insert has it. -/
theorem substitute {insert : Nat → Block → Attempt Text}
    (h : ∀ block, P Text fun levels => insert levels block) (s : Text) :
    P Text fun levels => Block.substitute (insert levels) s := by
  induction s using Block.substitute.induct with
  | case1 =>
      simp only [Block.substitute]
      exact hP.ends (.ok [])
  | case2 c s block rest hread ih =>
      simp only [Block.substitute_of_read? hread]
      exact hP.bind (h block) fun text => hP.bind ih fun more => hP.ends (.ok (text ++ more))
  | case3 c s hread ih =>
      simp only [Block.substitute_cons hread]
      exact hP.bind ih fun more => hP.ends (.ok (c :: more))

/-- What a block inserts has a closed property if the values of queries have it. -/
theorem insert {evaluate : Nat → Query → Attempt Json.Value}
    (h : ∀ query, P Json.Value fun levels => evaluate levels query) (block : Block) :
    P Text fun levels => Project.insert (evaluate levels) block := by
  have hvalueOf : ∀ source, P Json.Value fun levels => valueOf (evaluate levels) source := by
    intro source
    unfold valueOf
    split
    · exact hP.ends _
    · exact h _
  obtain ⟨mode, body⟩ := block
  cases mode with
  | value => exact hP.map (hvalueOf body) Json.Value.plain
  | escaped => exact hP.map (hvalueOf body) fun value => Text.escapeHtml value.plain
  | code => exact hP.ends _

/-! ### Helper calls -/

section Imports

variable {project : Project} {disk : Disk} {expand : Nat → Text → Attempt Text}
  (h : ∀ source, project.Imported disk source → P Text fun levels => expand levels source)

include h

theorem importStyles (names : List Text) :
    P Text fun levels => project.importStyles disk (expand levels) names := by
  unfold Project.importStyles
  cases hread : readAll disk (names.map project.stylePath) with
  | error fault => exact hP.ends (.error fault)
  | ok source =>
      simp only [lift_ok_bind]
      exact hP.bind (h source (.styles hread)) fun sheet => hP.ends (.ok (styleLiterals sheet))

theorem importTemplate (name : Text) :
    P Text fun levels => project.importTemplate disk (expand levels) name := by
  unfold Project.importTemplate
  cases hread : readText disk (project.templatePath name) with
  | error fault => exact hP.ends (.error fault)
  | ok file =>
      simp only [lift_ok_bind]
      exact hP.bind (h _ (.template hread)) fun template => hP.ends (project.compileTemplate template)

theorem applyHelper (helper : Helper) (argument : Text) :
    P Json.Value fun levels => project.applyHelper disk (expand levels) helper argument := by
  cases helper with
  | importCss => exact hP.map (hP.importStyles h [argument]) Json.Value.string
  | importHtml => exact hP.map (hP.importTemplate h argument) Json.Value.string
  | html => exact hP.ends _
  | assertion => exact hP.ends _
  | read => exact hP.ends _
  | readJson => exact hP.ends _
  | readBase64 => exact hP.ends _
  | list => exact hP.ends _

/-- A helper call has a closed property if what can be imported has it. -/
theorem call (name : Text) (arguments : List Json.Value) :
    P Json.Value fun levels => project.call disk (expand levels) name arguments := by
  unfold Project.call
  split
  · exact hP.ends _
  · cases someTexts .importCss arguments with
    | error fault => exact hP.ends (.error fault)
    | ok names => exact hP.map (hP.importStyles h names) Json.Value.string
  · next helper _ _ =>
      cases onlyText helper arguments with
      | error fault => exact hP.ends (.error fault)
      | ok argument => exact hP.applyHelper h helper argument

/-- **A source has a closed property if what can be imported has it.** -/
theorem source (s : Text) :
    P Text fun levels => Block.substitute
      (Project.insert (Query.evaluate project.data (project.call disk (expand levels)))) s :=
  hP.substitute (hP.insert (hP.evaluate (hP.call h))) s

end Imports

end Closed

/-! ### More levels -/

/-- Where `narrow` has a result, `wide` has the same. -/
def Widens {α : Type} (narrow wide : Attempt α) : Prop :=
  ∀ result, narrow = some result → wide = some result

namespace Widens

variable {α β : Type} {narrow wide : Attempt α}

theorem refl (attempt : Attempt α) : Widens attempt attempt :=
  fun _ h => h

theorem trans {widest : Attempt α} (h : Widens narrow wide) (h' : Widens wide widest) :
    Widens narrow widest :=
  fun result hnarrow => h' result (h result hnarrow)

/-- What has no result is kept by everything. -/
theorem none (attempt : Attempt α) : Widens Option.none attempt :=
  fun _ h => nomatch h

/-- One computation after the other keeps its result if both do. -/
theorem bind (h : Widens narrow wide) {next next' : α → Attempt β}
    (hnext : ∀ a, Widens (next a) (next' a)) : Widens (narrow >>= next) (wide >>= next') := by
  intro result hresult
  match narrow, h, hresult with
  | some (.error fault), h, hresult =>
      rw [h _ rfl]
      exact hresult
  | some (.ok a), h, hresult =>
      rw [h _ rfl]
      exact hnext a result hresult

/-- What a computation has within some levels is kept within others. -/
theorem closed (levels levels' : Nat) :
    Closed fun _ (attempts : Nat → Attempt _) => Widens (attempts levels) (attempts levels') where
  ends := fun _ => refl _
  bind := fun h hnext => h.bind hnext

end Widens

end Project.Attempt

open Project.Attempt (Widens)

namespace Project

variable {project : Project} {disk : Disk}

/-- One level more keeps what the others give. -/
theorem widens_expand_succ (levels : Nat) (source : Text) :
    Widens (project.expand disk levels source) (project.expand disk (levels + 1) source) := by
  induction levels generalizing source with
  | zero => exact .none _
  | succ levels ih =>
      exact (Widens.closed levels (levels + 1)).source (fun source _ => ih source) source

/-- **What a source expands to within some levels, it expands to within more of them.** -/
theorem widens_expand {levels levels' : Nat} (h : levels ≤ levels') (source : Text) :
    Widens (project.expand disk levels source) (project.expand disk levels' source) := by
  induction h with
  | refl => exact .refl _
  | step _ ih => exact ih.trans (widens_expand_succ _ source)

theorem widens_render {levels levels' : Nat} (h : levels ≤ levels') (source : Text) :
    Widens (project.render disk levels source) (project.render disk levels' source) :=
  widens_expand (Nat.succ_le_succ h) source

/-- What an import expands to is what the file expands to as a source of its own. -/
theorem render_of_expand {levels : Nat} {source text : Text}
    (h : project.expand disk levels source = some (.ok text)) :
    project.render disk levels source = some (.ok text) :=
  widens_expand_succ levels source _ h

end Project

end SafeTemplate
