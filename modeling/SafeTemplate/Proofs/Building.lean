/-
**A build writes its output or nothing.**

A build first finds the text that it will write, and only then touches the disk.  A fault on the way to
the text leaves the disk as it is, and a fault in writing changes no file.  So a build that fails has
changed no file, and one that succeeds has changed the output only — also where the output is one of
the files that the text is made from, since all of them are read before.

Main definition: `Project.Builds` — a build has a result.

Main results:

* `Project.output_eq_iff` — the text of a build is the source expanded with the data of the project;
* `Project.writeText_cases` — a text is written as a whole, or no file changes;
* `Project.build_cases` — the ends of a build;
* `Project.widens_build`, `Project.Builds.unique` — more levels keep what a build leaves, so that is one
  result at most;
* `Project.build_eq_none_iff` — a build leaves nothing exactly if its source has no expansion;
* `Project.sameFiles_build` — a build that fails changes no file;
* `Project.build_all_or_nothing` — **what a build leaves on the disk**.
-/

import SafeTemplate.Project.Build
import SafeTemplate.Proofs.ImportDepth
import SafeTemplate.Proofs.Writing

set_option autoImplicit false

namespace SafeTemplate.Project

/-! ### The text of a build -/

/-- The text of a build is the source expanded with the data of the project, unless one of the two
cannot be read. -/
theorem output_eq_iff (disk : Disk) (levels : Nat) (job : Job) {ending : Attempt Text}
    (h : ∀ fault, ending ≠ some (.error fault)) :
    output disk levels job = ending ↔
      ∃ project source, load disk job.root job.host job.overrides = .ok project ∧
        readText disk job.input = .ok source ∧ project.render disk levels source = ending := by
  unfold output
  rw [Attempt.lift_bind_eq_iff h]
  constructor
  · rintro ⟨project, hload, hsource⟩
    obtain ⟨source, hread, hrender⟩ := (Attempt.lift_bind_eq_iff h).1 hsource
    exact ⟨project, source, hload, hread, hrender⟩
  · rintro ⟨project, source, hload, hread, hrender⟩
    exact ⟨project, hload, (Attempt.lift_bind_eq_iff h).2 ⟨source, hread, hrender⟩⟩

theorem widens_output {levels levels' : Nat} (h : levels ≤ levels') (disk : Disk) (job : Job) :
    Attempt.Widens (output disk levels job) (output disk levels' job) := by
  unfold output
  exact (Attempt.Widens.refl _).bind fun _ => (Attempt.Widens.refl _).bind fun source =>
    widens_render h source

/-! ### Writing the text -/

/-- **A text is written as a whole, or no file changes.** -/
theorem writeText_cases (disk : Disk) (path text : Text) :
    (∃ after, writeText disk path text = (none, after) ∧
        Disk.Written disk after path (Utf8.encode text)) ∨
      ∃ cause after, writeText disk path text = (some (.unwritable path cause), after) ∧
        Disk.SameFiles disk after := by
  have hcases := disk.writeBytes_cases path (Utf8.encode text)
  unfold writeText Disk.writeText
  cases hwrite : disk.writeBytes path (Utf8.encode text) with
  | mk cause? after =>
      rw [hwrite] at hcases
      cases cause? with
      | none => exact .inl ⟨after, rfl, hcases⟩
      | some cause => exact .inr ⟨cause, after, rfl, hcases⟩

/-- A text that was written is read back byte for byte. -/
theorem readExactText_of_written {disk after : Disk} {path text : Text}
    (h : Disk.Written disk after path (Utf8.encode text)) : after.readExactText path = .ok text := by
  rw [Disk.readExactText, h.readBytes]
  simp [Utf8.decode?_encode]

/-! ### Builds -/

/-- The ends of a build: none within these levels, no text to write, the text written, or a fault in
writing it. -/
theorem build_cases (disk : Disk) (levels : Nat) (job : Job) :
    build disk levels job = none ∨
      (∃ fault, output disk levels job = some (.error fault) ∧
        build disk levels job = some (some fault, disk)) ∨
      (∃ text after, output disk levels job = some (.ok text) ∧
        build disk levels job = some (none, after) ∧
        Disk.Written disk after job.output (Utf8.encode text)) ∨
      ∃ cause after, build disk levels job = some (some (.unwritable job.output cause), after) ∧
        Disk.SameFiles disk after := by
  unfold build
  cases output disk levels job with
  | none => exact .inl rfl
  | some result =>
      cases result with
      | error fault => exact .inr (.inl ⟨fault, rfl, rfl⟩)
      | ok text =>
          obtain ⟨after, hwrite, hwritten⟩ | ⟨cause, after, hwrite, hsame⟩ :=
            writeText_cases disk job.output text
          · exact .inr (.inr (.inl ⟨text, after, rfl, congrArg some hwrite, hwritten⟩))
          · exact .inr (.inr (.inr ⟨cause, after, congrArg some hwrite, hsame⟩))

/-- What a build leaves within some levels, it leaves within more of them. -/
theorem widens_build {levels levels' : Nat} (h : levels ≤ levels') {disk : Disk} {job : Job}
    {built : Option Fault × Disk} (hbuild : build disk levels job = some built) :
    build disk levels' job = some built := by
  have hwidens := widens_output h disk job
  unfold build at hbuild ⊢
  cases houtput : output disk levels job with
  | none =>
      rw [houtput] at hbuild
      cases hbuild
  | some result =>
      rw [houtput] at hbuild
      rw [hwidens result houtput]
      exact hbuild

/-- A build has a result within some number of levels. -/
def Builds (disk : Disk) (job : Job) (built : Option Fault × Disk) : Prop :=
  ∃ levels, build disk levels job = some built

/-- A build has one result at most. -/
theorem Builds.unique {disk : Disk} {job : Job} {built built' : Option Fault × Disk}
    (h : Builds disk job built) (h' : Builds disk job built') : built = built' := by
  obtain ⟨levels, hbuild⟩ := h
  obtain ⟨levels', hbuild'⟩ := h'
  have hdeep := widens_build (Nat.le_max_left levels levels') hbuild
  have hdeep' := widens_build (Nat.le_max_right levels levels') hbuild'
  exact Option.some.inj (hdeep.symm.trans hdeep')

/-- **A build has no result exactly if its source has no expansion.** -/
theorem build_eq_none_iff (disk : Disk) (levels : Nat) (job : Job) :
    build disk levels job = none ↔
      ∃ project source, load disk job.root job.host job.overrides = .ok project ∧
        readText disk job.input = .ok source ∧ project.render disk levels source = none := by
  rw [← output_eq_iff disk levels job fun _ hfault => by cases hfault]
  unfold build
  split <;> simp [*]

/-- A build that fails changes no file. -/
theorem sameFiles_build {disk after : Disk} {levels : Nat} {job : Job} {fault : Fault}
    (h : build disk levels job = some (some fault, after)) : Disk.SameFiles disk after := by
  obtain hbuild | ⟨_, -, hbuild⟩ | ⟨_, _, -, hbuild, -⟩ | ⟨_, _, hbuild, hsame⟩ :=
    build_cases disk levels job
  · cases hbuild.symm.trans h
  · cases hbuild.symm.trans h
    exact .refl disk
  · cases hbuild.symm.trans h
  · cases hbuild.symm.trans h
    exact hsame

/-- **What a build leaves on the disk.**  If it succeeds, the output holds the text that the data and
the source gave before, and no other file has changed.  If the text cannot be written, no file has
changed.  At any other fault the disk is as it was, directories and times included.  Only a source whose
imports go deeper than the levels leaves nothing at all. -/
theorem build_all_or_nothing (disk : Disk) (levels : Nat) (job : Job) :
    match build disk levels job with
    | some (none, after) =>
        ∃ project source text target,
          load disk job.root job.host job.overrides = .ok project ∧
            readText disk job.input = .ok source ∧
            project.render disk levels source = some (.ok text) ∧
            after.readExactText job.output = .ok text ∧
            after.locate job.output = .ok target ∧
            ∀ place, place ≠ target → after.content? place = disk.content? place
    | some (some (.unwritable _ _), after) => ∀ place, after.content? place = disk.content? place
    | some (some _, after) => after = disk
    | none =>
        ∃ project source, load disk job.root job.host job.overrides = .ok project ∧
          readText disk job.input = .ok source ∧ project.render disk levels source = none := by
  obtain hbuild | ⟨fault, -, hbuild⟩ | ⟨text, after, houtput, hbuild, hwritten⟩ |
    ⟨cause, after, hbuild, hsame⟩ := build_cases disk levels job
  · rw [hbuild]
    exact (build_eq_none_iff disk levels job).1 hbuild
  · rw [hbuild]
    cases fault with
    | unwritable path cause => exact Disk.SameFiles.refl disk
    | _ => rfl
  · rw [hbuild]
    obtain ⟨project, source, hload, hread, hrender⟩ :=
      (output_eq_iff disk levels job fun _ hfault => by cases hfault).1 houtput
    have hback := readExactText_of_written hwritten
    obtain ⟨target, hlocate, -, hothers⟩ := hwritten
    exact ⟨project, source, text, target, hload, hread, hrender, hback, hlocate, hothers⟩
  · rw [hbuild]
    exact hsame

end SafeTemplate.Project
