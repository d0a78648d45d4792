/-
**Imports without end.**

Nothing keeps a file from importing itself, nor two files from importing each other.  Such a file has no
expansion, whatever the number of levels: with one level more it only comes to the next import, for which
a level less is left.

Main definitions:

* `Project.Endless`, `Project.Job.Endless` — a source that has no expansion, and a build of such a source;
* `Project.Imports` — a source begins with an import, and what is imported;
* `Project.Attempt.Settles` — more levels keep the result of a computation, and some number gives one.

Main results:

* `Project.expand_eq_none_of_imports` — a source has no expansion where what it imports has none;
* `Project.endless_of_chain` — **the sources of an endless chain of imports have no expansion**;
* `Project.Endless.exists_imported` — **only imports keep a source from having an expansion**;
* `Project.build_endless_iff` — a build has no result exactly if its source has no expansion.
-/

import SafeTemplate.Proofs.Building
import SafeTemplate.Proofs.InlineTemplate

set_option autoImplicit false

namespace SafeTemplate.Project

/-! ### Sources -/

variable {project : Project} {disk : Disk}

/-- A source has no expansion, within any number of levels. -/
def Endless (project : Project) (disk : Disk) (source : Text) : Prop :=
  ∀ levels, project.render disk levels source = none

/-- A source begins with an import of a file by its name, and `target` is what is imported: the style
sheet, or the template file as one line. -/
inductive Imports (project : Project) (disk : Disk) : Text → Text → Prop
  | styles {name sheet : Text} (rest : Text) (hread : readText disk (project.stylePath name) = .ok sheet) :
      Imports project disk ((Block.mk .value (inlineBody .importCss name)).written ++ rest) sheet
  | template {name file : Text} (rest : Text)
      (hread : readText disk (project.templatePath name) = .ok file) :
      Imports project disk ((Block.mk .value (inlineBody .importHtml name)).written ++ rest)
        (templateLine file)

/-- A source has no expansion if the call that it begins with has no value. -/
theorem expand_eq_none_of_call {levels : Nat} {helper : Helper} {s : Text} (rest : Text)
    (h : project.callHelper disk levels helper.name [.string s] = none) :
    project.expand disk (levels + 1)
      ((Block.mk .value (inlineBody helper s)).written ++ rest) = none := by
  have hinsert : insert (project.evaluate disk levels) ⟨.value, inlineBody helper s⟩ = none := by
    have hcall := insert_inlineBody project (project.callHelper disk levels) helper s
    rw [h] at hcall
    exact hcall
  have hopening : ¬Block.opening <:+: ([] : Text) := by decide
  have hrender := project.render_written disk levels hopening (writable_inline helper s) rest
  rw [hinsert] at hrender
  exact hrender

/-- An import has no value if what it imports has no expansion. -/
theorem callHelper_importCss_eq_none {levels : Nat} {name sheet : Text}
    (hread : readText disk (project.stylePath name) = .ok sheet)
    (h : project.expand disk levels sheet = none) :
    project.callHelper disk levels Helper.importCss.name [.string name] = none := by
  have hall : readAll disk ([name].map project.stylePath) = .ok sheet := by
    rw [List.map_singleton, readAll, hread, readAll]
    exact congrArg Except.ok (List.append_nil sheet)
  rw [callHelper_text, applyHelper, importStyles, hall, Attempt.lift_ok_bind, h]
  rfl

@[inherit_doc callHelper_importCss_eq_none]
theorem callHelper_importHtml_eq_none {levels : Nat} {name file : Text}
    (hread : readText disk (project.templatePath name) = .ok file)
    (h : project.expand disk levels (templateLine file) = none) :
    project.callHelper disk levels Helper.importHtml.name [.string name] = none := by
  rw [callHelper_text, applyHelper, importTemplate, hread, Attempt.lift_ok_bind, h]
  rfl

/-- **A source has no expansion where what it imports has none.** -/
theorem expand_eq_none_of_imports {levels : Nat} {source target : Text}
    (himports : project.Imports disk source target)
    (h : project.expand disk levels target = none) :
    project.expand disk (levels + 1) source = none := by
  cases himports with
  | styles rest hread => exact expand_eq_none_of_call rest (callHelper_importCss_eq_none hread h)
  | template rest hread => exact expand_eq_none_of_call rest (callHelper_importHtml_eq_none hread h)

/-- **The sources of an endless chain of imports have no expansion.** -/
theorem endless_of_chain {chain : Nat → Text}
    (h : ∀ n, project.Imports disk (chain n) (chain (n + 1))) : project.Endless disk (chain 0) := by
  -- every source of the chain, since what a source imports is the next one
  have hnone : ∀ levels n, project.expand disk levels (chain n) = none := by
    intro levels
    induction levels with
    | zero => exact fun n => rfl
    | succ levels ih => exact fun n => expand_eq_none_of_imports (h n) (ih (n + 1))
  exact fun levels => hnone (levels + 1) 0

/-- A source that imports itself. -/
theorem endless_of_imports_self {source : Text} (h : project.Imports disk source source) :
    project.Endless disk source :=
  endless_of_chain fun _ => h

/-! ### What ends -/

namespace Attempt

/-- More levels keep the result of a computation, and some number of levels gives one. -/
structure Settles {α : Type} (attempts : Nat → Attempt α) : Prop where
  widens : ∀ {levels levels' : Nat}, levels ≤ levels' → Widens (attempts levels) (attempts levels')
  ends : ∃ levels result, attempts levels = some result

namespace Settles

variable {α β : Type} {attempts : Nat → Attempt α}

theorem result (result : Except Fault α) : Settles fun _ => some result where
  widens := fun _ => .refl _
  ends := ⟨0, result, rfl⟩

theorem bind {next : Nat → α → Attempt β} (h : Settles attempts)
    (hnext : ∀ a, Settles fun levels => next levels a) :
    Settles fun levels => attempts levels >>= next levels where
  widens := fun hle => (h.widens hle).bind fun a => (hnext a).widens hle
  ends := by
    obtain ⟨levels, result, hresult⟩ := h.ends
    cases result with
    | error fault => exact ⟨levels, .error fault, by rw [hresult]; rfl⟩
    | ok a =>
        obtain ⟨levels', result', hresult'⟩ := (hnext a).ends
        have hfirst := h.widens (Nat.le_max_left levels levels') _ hresult
        have hthen := (hnext a).widens (Nat.le_max_right levels levels') _ hresult'
        exact ⟨max levels levels', result', by rw [hfirst]; exact hthen⟩

theorem closed : Closed fun _ (attempts : Nat → Attempt _) => Settles attempts where
  ends := result
  bind := fun h hnext => h.bind hnext

end Settles

end Attempt

open Attempt (Settles)

/-- **Only imports keep a source from having an expansion**: where a source has none, something that can
be imported has none, either. -/
theorem Endless.exists_imported {source : Text} (h : project.Endless disk source) :
    ∃ target, project.Imported disk target ∧ project.Endless disk target := by
  by_contra hnone
  have himported : ∀ target, project.Imported disk target →
      Settles fun levels => project.expand disk levels target := by
    intro target htarget
    obtain ⟨levels, hlevels⟩ := not_forall.1 fun hendless => hnone ⟨target, htarget, hendless⟩
    obtain ⟨result, hresult⟩ := Option.ne_none_iff_exists'.1 hlevels
    exact ⟨fun hle => widens_expand hle target, levels + 1, result, hresult⟩
  have hsource : Settles fun levels => project.render disk levels source :=
    Settles.closed.source himported source
  obtain ⟨levels, result, hresult⟩ := hsource.ends
  cases hresult.symm.trans (h levels)

/-! ### Builds -/

/-- A build has no result, within any number of levels: its source has no expansion. -/
def Job.Endless (job : Job) (disk : Disk) : Prop :=
  ∃ project source, load disk job.root job.host job.overrides = .ok project ∧
    readText disk job.input = .ok source ∧ project.Endless disk source

/-- **A build that has no result has a source that has no expansion.** -/
theorem build_endless_iff (disk : Disk) (job : Job) :
    (∀ levels, build disk levels job = none) ↔ job.Endless disk := by
  constructor
  · intro hnone
    obtain ⟨project, source, hload, hread, -⟩ := (build_eq_none_iff disk 0 job).1 (hnone 0)
    refine ⟨project, source, hload, hread, fun levels => ?_⟩
    -- the project and the source are the same within all levels
    obtain ⟨project', source', hload', hread', hrender⟩ :=
      (build_eq_none_iff disk levels job).1 (hnone levels)
    cases hload.symm.trans hload'
    cases hread.symm.trans hread'
    exact hrender
  · rintro ⟨project, source, hload, hread, hendless⟩ levels
    exact (build_eq_none_iff disk levels job).2 ⟨project, source, hload, hread, hendless levels⟩

end SafeTemplate.Project
