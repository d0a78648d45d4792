/-
**What a command line does.**

Flags and options are taken from the arguments wherever they stand, and what is left is a command with
its arguments.  Everything that a run can do follows from the two: whether it succeeds, what it prints,
and whether it may write.  A run that fails prints no result and changes no file.  Only a build whose
files import each other without end has no outcome at all.

Main definitions:

* `Cli.Settings`, `Cli.takeSettings` — what the flags and options say, and the arguments left over;
* `Cli.Runs` — a command line has an outcome;
* `Cli.Outcome.Orderly` — a failure shows in the status, and leaves neither a result nor a change;
* `Cli.Outcome.Refuses` — a run that fails and touches nothing;
* `Cli.Outcome.AnswersBuild`, `Cli.Outcome.AnswersHtml`, `Cli.Outcome.Answers` — what the two commands
  do, and what a command line does;
* `Cli.AsksToBuild`, `Cli.BuildsEndless` — a build is asked for, and one that has no result.

Main results:

* `Cli.Options.parse_eq` — a command line is read by taking the settings first;
* `Cli.run_cases` — a run is asked for a build, or ends with what it is asked for whatever the levels;
* `Cli.runs_of_asksToBuild`, `Cli.runs_iff` — a run that is asked for a build ends if the build does;
* `Cli.run_contract` — **what a command line does**, and `Cli.not_run_ends` — it does not always end.
-/

import SafeTemplate.Cli.Run
import SafeTemplate.Proofs.EndlessImports

set_option autoImplicit false

namespace SafeTemplate.Cli

/-! ### Settings -/

/-- What the flags and options of a command line say. -/
structure Settings where
  verbose : Bool
  checkOnly : Bool
  root : Text
  host : Host
  context : Text

/-- What the flags and options say, and the arguments that are left. -/
def takeSettings (arguments : List Text) : Except Refusal (Settings × List Text) :=
  let (verbose, arguments) := takeVerbose arguments
  let (checkOnly, arguments) := takeFlag "--check-only".toList arguments
  match takeOption "--root".toList arguments with
  | .error refusal => .error refusal
  | .ok (root?, arguments) =>
      match takeHost arguments with
      | .error refusal => .error refusal
      | .ok (host, arguments) =>
          match takeOption "--context".toList arguments with
          | .error refusal => .error refusal
          | .ok (context?, left) =>
              .ok (⟨verbose, checkOnly, root?.getD ['.'], host, context?.getD []⟩, left)

/-- The options that settings, a command and its arguments amount to. -/
def Settings.toOptions (settings : Settings) (left : List Text) : Options where
  command := left.headD []
  verbose := settings.verbose
  checkOnly := settings.checkOnly
  root := settings.root
  host := settings.host
  context := settings.context
  arguments := left.drop 1

/-- A command line is read by taking the settings first.  What is left is refused if an argument after
the first one starts with a hyphen. -/
theorem Options.parse_eq (arguments : List Text) :
    Options.parse arguments =
      match takeSettings arguments with
      | .error refusal => .error refusal
      | .ok (settings, left) =>
          if ((left.drop 1).filter isHyphenated).isEmpty then .ok (settings.toOptions left)
          else .error (.unknownArguments ((left.drop 1).filter isHyphenated)) := by
  unfold Options.parse takeSettings
  dsimp only
  cases hroot : takeOption "--root".toList
      (takeFlag "--check-only".toList (takeVerbose arguments).2).2 with
  | error refusal => rfl
  | ok rooted =>
      obtain ⟨root?, unrooted⟩ := rooted
      cases hhost : takeHost unrooted with
      | error refusal => simp only [hhost]
      | ok hosted =>
          obtain ⟨host, unhosted⟩ := hosted
          cases hcontext : takeOption "--context".toList unhosted with
          | error refusal => simp only [hhost, hcontext]
          | ok _ => simp only [hhost, hcontext, Settings.toOptions]

/-! ### Orderly runs -/

/-- Nothing is touched: the disk is as it was, and no file is written out. -/
def Outcome.Untouched (disk : Disk) (outcome : Outcome) : Prop :=
  outcome.disk = disk ∧ outcome.written? = none

/-- A run fails and touches nothing. -/
structure Outcome.Refuses (disk : Disk) (outcome : Outcome) : Prop where
  status : outcome.status = 1
  untouched : outcome.Untouched disk

/-- A failure shows in the status, and leaves neither a result nor a changed file. -/
structure Outcome.Orderly (disk : Disk) (outcome : Outcome) : Prop where
  status : outcome.status = 0 ∨ outcome.status = 1
  output : outcome.status = 1 → outcome.output = []
  files : outcome.status = 1 → disk.SameFiles outcome.disk

theorem refuses_refusal (disk : Disk) (diagnostics : Text) :
    (refusal disk diagnostics).Refuses disk :=
  ⟨rfl, rfl, rfl⟩

namespace Outcome.Orderly

theorem of_success {disk : Disk} {outcome : Outcome} (h : outcome.status = 0) :
    outcome.Orderly disk where
  status := .inl h
  output := fun hfail => absurd (h.symm.trans hfail) Nat.zero_ne_one
  files := fun hfail => absurd (h.symm.trans hfail) Nat.zero_ne_one

theorem of_failure {disk : Disk} {outcome : Outcome} (h : outcome.status = 1)
    (houtput : outcome.output = []) (hfiles : disk.SameFiles outcome.disk) :
    outcome.Orderly disk :=
  ⟨.inr h, fun _ => houtput, fun _ => hfiles⟩

theorem refusal (disk : Disk) (diagnostics : Text) : (refusal disk diagnostics).Orderly disk :=
  .of_failure rfl rfl (.refl disk)

end Outcome.Orderly

theorem orderly_check (disk : Disk) (job : Project.Job) : (check disk job).Orderly disk := by
  unfold check
  dsimp only
  split
  · exact .of_success rfl
  · exact .of_failure rfl rfl (.refl disk)

theorem orderly_buildOutcome {disk : Disk} {job : Project.Job} (verbose : Bool)
    {built : Option Project.Fault × Disk} (h : Project.Builds disk job built) :
    (buildOutcome verbose job built).Orderly disk := by
  obtain ⟨levels, hbuild⟩ := h
  obtain ⟨fault?, after⟩ := built
  cases fault? with
  | none => exact .of_success rfl
  | some fault => exact .of_failure rfl rfl (Project.sameFiles_build hbuild)

theorem orderly_runHtml (disk : Disk) (options : Options) :
    (runHtml disk options).Orderly disk := by
  unfold runHtml
  split
  · dsimp only
    split
    · exact .of_success rfl
    · exact .of_failure rfl rfl (.refl disk)
  · exact .refusal _ _

/-! ### The two commands -/

/-- What `build` does with these arguments. -/
def Outcome.AnswersBuild (disk : Disk) (settings : Settings) (outcome : Outcome) :
    List Text → Prop
  | input :: output :: overrides =>
      if settings.checkOnly then
        outcome.Untouched disk ∧
          (outcome.status = 0 ↔ Project.isStale disk settings.root input output = true)
      else
        ∃ built, Project.Builds disk ⟨input, output, settings.root, settings.host, overrides⟩ built ∧
          (outcome.status = 0 ↔ built.1 = none) ∧ outcome.disk = built.2
  | _ => outcome.Refuses disk

/-- What `html` does with these arguments. -/
structure Outcome.AnswersHtml (disk : Disk) (settings : Settings) (outcome : Outcome)
    (positional : List Text) : Prop where
  untouched : outcome.Untouched disk
  status : outcome.status = 0 ↔ ∃ path expression, positional = [path] ∧
    Project.compileFile disk path ⟨settings.context⟩ settings.host = .ok expression
  output : ∀ path expression, positional = [path] →
    Project.compileFile disk path ⟨settings.context⟩ settings.host = .ok expression →
      outcome.output = expression ++ ['\n']

theorem check_status (disk : Disk) (job : Project.Job) :
    (check disk job).status = 0 ↔ Project.isStale disk job.root job.input job.output = true := by
  unfold check
  cases Project.isStale disk job.root job.input job.output with
  | true => exact iff_of_true rfl rfl
  | false => exact iff_of_false Nat.one_ne_zero Bool.false_ne_true

theorem buildOutcome_status (verbose : Bool) (job : Project.Job) (built : Option Project.Fault × Disk) :
    (buildOutcome verbose job built).status = 0 ↔ built.1 = none := by
  obtain ⟨_ | fault, after⟩ := built
  · exact iff_of_true rfl rfl
  · exact iff_of_false Nat.one_ne_zero (Option.some_ne_none fault)

theorem buildOutcome_disk (verbose : Bool) (job : Project.Job) (built : Option Project.Fault × Disk) :
    (buildOutcome verbose job built).disk = built.2 := by
  obtain ⟨_ | fault, after⟩ := built <;> rfl

/-- The levels matter to a build only, not to what is refused or only checked. -/
theorem runBuild_cases (disk : Disk) (settings : Settings) (command : Text) (positional : List Text) :
    (∃ input output overrides, positional = input :: output :: overrides ∧
        settings.checkOnly = false) ∨
      ∃ outcome, (∀ levels,
          runBuild disk levels (settings.toOptions (command :: positional)) = some outcome) ∧
        outcome.Orderly disk ∧ outcome.AnswersBuild disk settings positional := by
  match positional with
  | [] => exact .inr ⟨_, fun _ => rfl, .refusal _ _, refuses_refusal _ _⟩
  | [_] => exact .inr ⟨_, fun _ => rfl, .refusal _ _, refuses_refusal _ _⟩
  | input :: output :: overrides =>
      cases hcheck : settings.checkOnly with
      | false => exact .inl ⟨input, output, overrides, rfl, rfl⟩
      | true =>
          refine .inr ⟨_, fun _ => if_pos hcheck, orderly_check _ _, ?_⟩
          rw [Outcome.AnswersBuild, if_pos hcheck]
          exact ⟨⟨rfl, rfl⟩, check_status _ _⟩

theorem runHtml_of_ok (disk : Disk) {options : Options} {path expression : Text}
    (harguments : options.arguments = [path])
    (hcompile : Project.compileFile disk path ⟨options.context⟩ options.host = .ok expression) :
    (runHtml disk options).status = 0 ∧ (runHtml disk options).output = expression ++ ['\n'] := by
  unfold runHtml
  rw [harguments]
  dsimp only
  rw [hcompile]
  exact ⟨rfl, rfl⟩

/-- The other runs fail: there is not one argument, or the file cannot be compiled. -/
theorem runHtml_of_not_ok (disk : Disk) {options : Options}
    (h : ¬ ∃ path expression, options.arguments = [path] ∧
      Project.compileFile disk path ⟨options.context⟩ options.host = .ok expression) :
    (runHtml disk options).status = 1 := by
  unfold runHtml
  split
  · next path harguments =>
      dsimp only
      split
      · next expression hcompile => exact absurd ⟨path, expression, harguments, hcompile⟩ h
      · rfl
  · rfl

theorem untouched_runHtml (disk : Disk) (options : Options) :
    (runHtml disk options).Untouched disk := by
  unfold runHtml
  split
  · dsimp only
    split <;> exact ⟨rfl, rfl⟩
  · exact ⟨rfl, rfl⟩

theorem answersHtml_runHtml (disk : Disk) (settings : Settings) (command : Text)
    (positional : List Text) :
    (runHtml disk (settings.toOptions (command :: positional))).AnswersHtml disk settings
      positional where
  untouched := untouched_runHtml _ _
  status := by
    constructor
    · intro hzero
      by_contra h
      exact Nat.zero_ne_one (hzero.symm.trans (runHtml_of_not_ok disk h))
    · rintro ⟨path, expression, hpositional, hcompile⟩
      exact (runHtml_of_ok disk hpositional hcompile).1
  output := fun _ _ hpositional hcompile => (runHtml_of_ok disk hpositional hcompile).2

/-! ### What a command line asks for -/

/-- What a command line does.  It is refused without a look at the disk if the settings cannot be taken,
if an argument that starts with a hyphen is left, or if no known command is.  Otherwise the command
decides. -/
def Outcome.Answers (disk : Disk) (arguments : List Text) (outcome : Outcome) : Prop :=
  match takeSettings arguments with
  | .error _ => outcome.Refuses disk
  | .ok (settings, left) =>
      if left.any isHyphenated then outcome.Refuses disk
      else
        match left with
        | [] => outcome.Refuses disk
        | command :: positional =>
            if command = "build".toList then outcome.AnswersBuild disk settings positional
            else if command = "html".toList then outcome.AnswersHtml disk settings positional
            else outcome.Refuses disk

/-- A command line has an outcome, within some number of levels. -/
def Runs (disk : Disk) (arguments : List Text) (outcome : Outcome) : Prop :=
  ∃ levels, run disk levels arguments = some outcome

/-- A command line asks to build a job, and not only to say whether it has to be built. -/
def AsksToBuild (arguments : List Text) (job : Project.Job) : Prop :=
  ∃ settings, takeSettings arguments =
      .ok (settings, "build".toList :: job.input :: job.output :: job.overrides) ∧
    (job.input :: job.output :: job.overrides).any isHyphenated = false ∧
    settings.checkOnly = false ∧ settings.root = job.root ∧ settings.host = job.host

/-- A command line asks for a build that has no result. -/
def BuildsEndless (disk : Disk) (arguments : List Text) : Prop :=
  ∃ job, AsksToBuild arguments job ∧ job.Endless disk

section Left

variable {arguments : List Text} (disk : Disk)

theorem refused_of_error {cause : Refusal} (h : takeSettings arguments = .error cause) :
    ∃ diagnostics, ∀ levels, run disk levels arguments = some (refusal disk diagnostics) := by
  refine ⟨coloredLine red cause.message, fun levels => ?_⟩
  rw [run, Options.parse_eq, h]

variable {settings : Settings} {left : List Text}

/-- What a run does with what is left, unless it is refused. -/
theorem run_of_left (levels : Nat) (h : takeSettings arguments = .ok (settings, left))
    (hleft : (left.drop 1).any isHyphenated = false) :
    run disk levels arguments =
      if left.headD [] = "build".toList then runBuild disk levels (settings.toOptions left)
      else if left.headD [] = "html".toList then some (runHtml disk (settings.toOptions left))
      else
        some (refusal disk
          (coloredLine red ("Unknown command: ".toList ++ left.headD []) ++
            "Usage: ".toList ++ buildUsage ++ "\n       ".toList ++ htmlUsage ++ ['\n'])) := by
  have hnone : ((left.drop 1).filter isHyphenated).isEmpty = true := by
    rw [List.isEmpty_iff, List.filter_eq_nil_iff]
    intro argument hmem
    rw [List.any_eq_false] at hleft
    exact hleft argument hmem
  rw [run, Options.parse_eq, h]
  dsimp only
  rw [if_pos hnone]
  rfl

theorem refused_of_unknown (h : takeSettings arguments = .ok (settings, left))
    (hleft : (left.drop 1).any isHyphenated = false) (hbuild : left.headD [] ≠ "build".toList)
    (hhtml : left.headD [] ≠ "html".toList) :
    ∃ diagnostics, ∀ levels, run disk levels arguments = some (refusal disk diagnostics) :=
  ⟨_, fun levels => (run_of_left disk levels h hleft).trans ((if_neg hbuild).trans (if_neg hhtml))⟩

/-- An argument that starts with a hyphen is no command, and no argument of one. -/
theorem refused_of_hyphenated (h : takeSettings arguments = .ok (settings, left))
    (hleft : left.any isHyphenated = true) :
    ∃ diagnostics, ∀ levels, run disk levels arguments = some (refusal disk diagnostics) := by
  cases hrest : (left.drop 1).any isHyphenated with
  | true =>
      have hsome : ¬ ((left.drop 1).filter isHyphenated).isEmpty = true := by
        rw [List.isEmpty_iff, List.filter_eq_nil_iff]
        intro hall
        obtain ⟨argument, hmem, hhyphen⟩ := List.any_eq_true.1 hrest
        exact hall argument hmem hhyphen
      let cause := Refusal.unknownArguments ((left.drop 1).filter isHyphenated)
      refine ⟨coloredLine red cause.message, fun levels => ?_⟩
      rw [run, Options.parse_eq, h]
      dsimp only
      rw [if_neg hsome]
  | false =>
      -- only the first argument is left, which would be the command
      obtain ⟨command, positional, rfl⟩ : ∃ command positional, left = command :: positional := by
        cases left with
        | nil => cases hleft
        | cons command positional => exact ⟨command, positional, rfl⟩
      have hcommand : isHyphenated command = true := by
        rw [List.any_cons] at hleft
        exact (Bool.or_eq_true_iff.1 hleft).resolve_right (by simpa using hrest)
      have hbuild : command ≠ "build".toList := by rintro rfl; cases hcommand
      have hhtml : command ≠ "html".toList := by rintro rfl; cases hcommand
      exact refused_of_unknown disk h hrest hbuild hhtml

theorem run_of_build {positional : List Text}
    (h : takeSettings arguments = .ok (settings, "build".toList :: positional))
    (hleft : positional.any isHyphenated = false) (levels : Nat) :
    run disk levels arguments =
      runBuild disk levels (settings.toOptions ("build".toList :: positional)) := by
  rw [run_of_left disk levels h hleft, List.headD_cons, if_pos rfl]

/-- A command other than `build`. -/
theorem run_of_command {command : Text} {positional : List Text}
    (h : takeSettings arguments = .ok (settings, command :: positional))
    (hleft : positional.any isHyphenated = false) (hbuild : command ≠ "build".toList) :
    ∃ outcome, (∀ levels, run disk levels arguments = some outcome) ∧ outcome.Orderly disk ∧
      if command = "html".toList then outcome.AnswersHtml disk settings positional
      else outcome.Refuses disk := by
  by_cases hhtml : command = "html".toList
  · have hrun : ∀ levels, run disk levels arguments =
        some (runHtml disk (settings.toOptions (command :: positional))) := by
      intro levels
      rw [run_of_left disk levels h hleft, List.headD_cons, if_neg hbuild, if_pos hhtml]
    refine ⟨_, hrun, orderly_runHtml _ _, ?_⟩
    rw [if_pos hhtml]
    exact answersHtml_runHtml _ _ _ _
  · obtain ⟨diagnostics, hrun⟩ := refused_of_unknown disk h hleft hbuild hhtml
    refine ⟨_, hrun, .refusal _ _, ?_⟩
    rw [if_neg hhtml]
    exact refuses_refusal _ _

end Left

/-! ### Builds that are asked for -/

section Asked

variable {disk : Disk} {arguments : List Text} {job : Project.Job}

/-- What a command line does that asks to build a job is what the build does. -/
theorem runs_of_asksToBuild (disk : Disk) (h : AsksToBuild arguments job) :
    ∃ verbose, ∀ outcome, Runs disk arguments outcome ↔
      ∃ built, Project.Builds disk job built ∧ buildOutcome verbose job built = outcome := by
  obtain ⟨input, output, root, host, overrides⟩ := job
  obtain ⟨settings, htaken, hpositional, hcheck, rfl, rfl⟩ := h
  let job : Project.Job := ⟨input, output, settings.root, settings.host, overrides⟩
  have hbuilding : ¬ settings.checkOnly = true := by simp [hcheck]
  have hrun : ∀ levels, run disk levels arguments =
      (Project.build disk levels job).map (buildOutcome settings.verbose job) := by
    intro levels
    rw [run_of_build disk htaken hpositional]
    exact if_neg hbuilding
  refine ⟨settings.verbose, fun outcome => ?_⟩
  simp only [Runs, hrun, Option.map_eq_some_iff]
  exact exists_comm.trans (exists_congr fun built => exists_and_right)

theorem answers_buildOutcome (h : AsksToBuild arguments job) (verbose : Bool)
    {built : Option Project.Fault × Disk} (hbuild : Project.Builds disk job built) :
    (buildOutcome verbose job built).Answers disk arguments := by
  obtain ⟨input, output, root, host, overrides⟩ := job
  obtain ⟨settings, htaken, hpositional, hcheck, rfl, rfl⟩ := h
  have hleft : ¬ ("build".toList :: input :: output :: overrides).any isHyphenated = true := by
    rw [List.any_cons, hpositional]
    decide
  have hbuilding : ¬ settings.checkOnly = true := by simp [hcheck]
  rw [Outcome.Answers, htaken]
  dsimp only
  rw [if_neg hleft, if_pos rfl, Outcome.AnswersBuild, if_neg hbuilding]
  exact ⟨built, hbuild, buildOutcome_status _ _ _, buildOutcome_disk _ _ _⟩

end Asked

/-! ### Command lines -/

/-- **A run is asked for a build, or it ends with what it is asked for, whatever the levels.** -/
theorem run_cases (disk : Disk) (arguments : List Text) :
    (∃ job, AsksToBuild arguments job) ∨
      ∃ outcome, (∀ levels, run disk levels arguments = some outcome) ∧ outcome.Orderly disk ∧
        outcome.Answers disk arguments := by
  unfold Outcome.Answers
  cases htaken : takeSettings arguments with
  | error cause =>
      obtain ⟨diagnostics, hrun⟩ := refused_of_error disk htaken
      exact .inr ⟨_, hrun, .refusal _ _, refuses_refusal _ _⟩
  | ok taken =>
      obtain ⟨settings, left⟩ := taken
      dsimp only
      cases hleft : left.any isHyphenated with
      | true =>
          obtain ⟨diagnostics, hrun⟩ := refused_of_hyphenated disk htaken hleft
          exact .inr ⟨_, hrun, .refusal _ _, refuses_refusal _ _⟩
      | false =>
          cases left with
          | nil =>
              obtain ⟨diagnostics, hrun⟩ := refused_of_unknown disk htaken rfl (by decide) (by decide)
              exact .inr ⟨_, hrun, .refusal _ _, refuses_refusal _ _⟩
          | cons command positional =>
              have hpositional : positional.any isHyphenated = false := by
                rw [List.any_cons, Bool.or_eq_false_iff] at hleft
                exact hleft.2
              by_cases hbuild : command = "build".toList
              · subst hbuild
                obtain ⟨input, output, overrides, rfl, hcheck⟩ | ⟨outcome, hrun, horderly, hanswers⟩ :=
                  runBuild_cases disk settings "build".toList positional
                · exact .inl ⟨⟨input, output, settings.root, settings.host, overrides⟩, settings, htaken,
                    hpositional, hcheck, rfl, rfl⟩
                · refine .inr ⟨outcome, fun levels => ?_, horderly, hanswers⟩
                  rw [run_of_build disk htaken hpositional, hrun]
              · simp only [if_neg hbuild]
                exact .inr (run_of_command disk htaken hpositional hbuild)

/-- **A command line has an outcome unless it asks for a build that has no result.** -/
theorem runs_iff (disk : Disk) (arguments : List Text) :
    (∃ outcome, Runs disk arguments outcome) ↔ ¬BuildsEndless disk arguments := by
  constructor
  · rintro ⟨outcome, hruns⟩ ⟨job, hasks, hendless⟩
    obtain ⟨verbose, hiff⟩ := runs_of_asksToBuild disk hasks
    obtain ⟨built, ⟨levels, hbuild⟩, -⟩ := (hiff outcome).1 hruns
    rw [(Project.build_endless_iff disk job).2 hendless levels] at hbuild
    cases hbuild
  · intro hends
    obtain ⟨job, hasks⟩ | ⟨outcome, hrun, -⟩ := run_cases disk arguments
    · have hresult : ¬∀ levels, Project.build disk levels job = none := fun hnone =>
        hends ⟨job, hasks, (Project.build_endless_iff disk job).1 hnone⟩
      obtain ⟨levels, hlevels⟩ := not_forall.1 hresult
      obtain ⟨built, hbuild⟩ := Option.ne_none_iff_exists'.1 hlevels
      obtain ⟨verbose, hiff⟩ := runs_of_asksToBuild disk hasks
      exact ⟨_, (hiff _).2 ⟨built, ⟨levels, hbuild⟩, rfl⟩⟩
    · exact ⟨outcome, 0, hrun 0⟩

/-- **What a command line does.**  It has an outcome unless it asks for a build whose files import each
other without end.  It has one only, which is orderly and does what the arguments ask for. -/
theorem run_contract (disk : Disk) (arguments : List Text) :
    ((∃ outcome, Runs disk arguments outcome) ↔ ¬BuildsEndless disk arguments) ∧
      ∀ outcome, Runs disk arguments outcome →
        outcome.Orderly disk ∧ outcome.Answers disk arguments ∧
          ∀ other, Runs disk arguments other → other = outcome := by
  refine ⟨runs_iff disk arguments, fun outcome hruns => ?_⟩
  obtain ⟨job, hasks⟩ | ⟨outcome', hrun, horderly, hanswers⟩ := run_cases disk arguments
  · obtain ⟨verbose, hiff⟩ := runs_of_asksToBuild disk hasks
    obtain ⟨built, hbuilds, rfl⟩ := (hiff outcome).1 hruns
    refine ⟨orderly_buildOutcome verbose hbuilds, answers_buildOutcome hasks verbose hbuilds, ?_⟩
    intro other hother
    obtain ⟨built', hbuilds', rfl⟩ := (hiff other).1 hother
    rw [hbuilds'.unique hbuilds]
  · have hsame : ∀ other, Runs disk arguments other → other = outcome' := by
      rintro other ⟨levels, hother⟩
      exact Option.some.inj (hother.symm.trans (hrun levels))
    obtain rfl := hsame outcome hruns
    exact ⟨horderly, hanswers, hsame⟩

/-- A source that imports itself as a style sheet. -/
def importOfItself : Text :=
  "<%= importCSS('a') %>".toList

/-- A project with a style sheet that imports itself. -/
def selfImportFiles : Disk :=
  ⟨[([], .directory
      ["src".toList, "package.json".toList, "version.json".toList, "main.coffee".toList] 0),
    (["src".toList], .directory ["css".toList] 0),
    (["src".toList, "css".toList], .directory ["a.css".toList] 0),
    (["src".toList, "css".toList, "a.css".toList], .file (Utf8.encode importOfItself) 0),
    (["package.json".toList], .file (Utf8.encode "{}".toList) 0),
    (["version.json".toList], .file (Utf8.encode "{}".toList) 0),
    (["main.coffee".toList], .file (Utf8.encode importOfItself) 0)], [], 0⟩

/-- A command line need not have an outcome. -/
theorem not_run_ends :
    ¬∀ (disk : Disk) (arguments : List Text), ∃ outcome, Runs disk arguments outcome ∧
      (outcome.status = 0 ∨ outcome.status = 1) := by
  intro hends
  let arguments := ["build".toList, "main.coffee".toList, "out.coffee".toList]
  let project : Project := ⟨[("meta".toList, .object [])], ['.'], .coffeeScript⟩
  have hreads {path : Text} (h : selfImportFiles.readBytes path = .ok (Utf8.encode importOfItself)) :
      Project.readText selfImportFiles path = .ok importOfItself := by
    rw [Project.readText, Disk.readText_of_readBytes h]
    rfl
  have hsheet : Project.readText selfImportFiles (project.stylePath "a".toList) = .ok importOfItself :=
    hreads rfl
  have himports : project.Imports selfImportFiles importOfItself importOfItself := .styles [] hsheet
  have hendless : Project.Job.Endless ⟨"main.coffee".toList, "out.coffee".toList, ['.'], .coffeeScript, []⟩
      selfImportFiles :=
    ⟨project, importOfItself, rfl, hreads rfl, Project.endless_of_imports_self himports⟩
  have hasks : AsksToBuild arguments
      ⟨"main.coffee".toList, "out.coffee".toList, ['.'], .coffeeScript, []⟩ :=
    ⟨⟨false, false, ['.'], .coffeeScript, []⟩, rfl, rfl, rfl, rfl, rfl⟩
  obtain ⟨outcome, hruns, -⟩ := hends selfImportFiles arguments
  exact (runs_iff selfImportFiles arguments).1 ⟨outcome, hruns⟩ ⟨_, hasks, hendless⟩

end SafeTemplate.Cli
