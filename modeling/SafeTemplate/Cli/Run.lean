/-
**Running a command line.**

There are two commands: `build` expands a source and writes the result, and `html` compiles a template
file and prints the host expression.  What a run does is given by its outcome: an exit status, what is
printed on the two output streams, the disk afterwards, and which files were written or not found.
A build whose files import each other without end has no outcome.

Main definitions: `Cli.Outcome`, `Cli.runBuild`, `Cli.runHtml`, `Cli.run`.
-/

import SafeTemplate.Cli.Options
import SafeTemplate.Project.Build

set_option autoImplicit false

namespace SafeTemplate.Cli

open Project (Fault)

/-! ### Outcomes -/

/-- What a run does. -/
structure Outcome where
  status : Nat
  output : Text
  diagnostics : Text
  disk : Disk
  /-- The path of the file that was written. -/
  written? : Option Text
  /-- The paths at which nothing was found. -/
  missing : List Text

/-- The escape sequences of a terminal for red, green and yellow text, and for the end of it. -/
def red : Text := "\x1b[0;31m".toList

@[inherit_doc red]
def green : Text := "\x1b[0;32m".toList

@[inherit_doc red]
def yellow : Text := "\x1b[0;33m".toList

@[inherit_doc red]
def plain : Text := "\x1b[0m".toList

/-- A line in a color. -/
def coloredLine (color line : Text) : Text :=
  color ++ line ++ plain ++ ['\n']

/-- A run that fails, without a look at the disk. -/
def refusal (disk : Disk) (diagnostics : Text) : Outcome :=
  ⟨1, [], diagnostics, disk, none, []⟩

/-- A run that fails with a fault. -/
def failure (disk : Disk) (fault : Fault) (diagnostics : Text) : Outcome :=
  ⟨1, [], diagnostics, disk, none, fault.missing?.toList⟩

/-! ### Commands -/

/-- How the two commands are called. -/
def buildUsage : Text :=
  "markup build <input> <output> [key=value ...]".toList

@[inherit_doc buildUsage]
def htmlUsage : Text :=
  "markup html <template> [--context CTX]".toList

/-- The line for a file that has been built. -/
def builtLine (verbose : Bool) (job : Project.Job) : Text :=
  if verbose then
    "  ".toList ++ job.input ++ " -> ".toList ++ green ++ job.output ++ plain ++ ['\n']
  else coloredLine green ("Built ".toList ++ job.output)

/-- Says by the status whether a file has to be built. -/
def check (disk : Disk) (job : Project.Job) : Outcome :=
  let missing := (job.output :: Project.sources job.root job.input).filter fun path =>
    (disk.modified? path).isNone
  ⟨if Project.isStale disk job.root job.input job.output then 0 else 1, [], [], disk, none, missing⟩

/-- What is left of a build: its result and the disk. -/
def buildOutcome (verbose : Bool) (job : Project.Job) : Option Fault × Disk → Outcome
  | (some fault, disk) =>
      failure disk fault
        (coloredLine red
          ("Build failed for ".toList ++ job.input ++ ": ".toList ++ fault.message))
  | (none, disk) => ⟨0, builtLine verbose job, [], disk, some job.output, []⟩

/-- Builds a file, or only says whether the file has to be built.  There is no outcome if imports nest
more than `levels` deep. -/
def runBuild (disk : Disk) (levels : Nat) (options : Options) : Option Outcome :=
  match options.arguments with
  | input :: output :: overrides =>
      let job : Project.Job := ⟨input, output, options.root, options.host, overrides⟩
      if options.checkOnly then some (check disk job)
      else (Project.build disk levels job).map (buildOutcome options.verbose job)
  | _ => some (refusal disk (coloredLine red ("Usage: ".toList ++ buildUsage)))

/-- Prints the host expression for a template file. -/
def runHtml (disk : Disk) (options : Options) : Outcome :=
  match options.arguments with
  | [path] =>
      let residue : Residue := ⟨options.context⟩
      let notice :=
        if residue.isTopLevel then []
        else coloredLine yellow ("Compiling in context: ".toList ++ options.context)
      match Project.compileFile disk path residue options.host with
      | .ok expression => ⟨0, expression ++ ['\n'], notice, disk, none, []⟩
      | .error fault =>
          failure disk fault
            (notice ++
              coloredLine red ("Compile error in ".toList ++ path ++ ": ".toList ++ fault.message))
  | _ => refusal disk (coloredLine red ("Usage: ".toList ++ htmlUsage))

/-- What a program with these arguments does, if its imports nest at most `levels` deep. -/
def run (disk : Disk) (levels : Nat) (arguments : List Text) : Option Outcome :=
  match Options.parse arguments with
  | .error cause => some (refusal disk (coloredLine red cause.message))
  | .ok options =>
      if options.command = "build".toList then runBuild disk levels options
      else if options.command = "html".toList then some (runHtml disk options)
      else
        some (refusal disk
          (coloredLine red ("Unknown command: ".toList ++ options.command) ++
            "Usage: ".toList ++ buildUsage ++ "\n       ".toList ++ htmlUsage ++ ['\n']))

end SafeTemplate.Cli
