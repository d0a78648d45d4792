/-
**Building a file of a project.**

The data of a project is what its package file holds.  Its member `meta` is completed by the version
file, and overrides of the form `key=value` come last.  A build expands one source with this data and
writes the result.

Main definitions:

* `Project.parseOverride?`, `Project.load` — the data of a project;
* `Project.sources`, `Project.isStale` — whether a file has to be built;
* `Project.build` — building a file;
* `Project.compileFile` — compiling a template file by itself.
-/

import SafeTemplate.Project.Expansion

set_option autoImplicit false

namespace SafeTemplate.Project

/-! ### Data -/

/-- The value of an override.  A JSON truth value, number or null is meant as such, everything else as
text. -/
def overrideValue (text : Text) : Json.Value :=
  match Json.parse text with
  | .ok (.bool b) => .bool b
  | .ok (.number n) => .number n
  | .ok .null => .null
  | _ => .string text

/-- The key and the value of an override. -/
def parseOverride? (item : Text) : Option (Text × Json.Value) :=
  (Text.cut? ['='] item).map fun halves => (halves.1, overrideValue halves.2)

/-- The data with some overrides, from left to right. -/
def applyOverrides : List Text → Json.Members → Except Fault Json.Members
  | [], data => .ok data
  | item :: more, data =>
      match parseOverride? item with
      | none => .error (.badOverride item)
      | some (key, value) => applyOverrides more (data.insert key value)

/-- The member of the data that the version file completes. -/
def metaKey : Text := "meta".toList

/-- The data with its metadata completed. -/
def completeMeta (data version : Json.Members) : Except Fault Json.Members :=
  match Json.Members.lookup metaKey data with
  | none => .ok (data.insert metaKey (.object (Json.Members.merge [] version)))
  | some (.object known) => .ok (data.insert metaKey (.object (Json.Members.merge known version)))
  | some _ => .error .metaNotObject

/-- The project in a directory. -/
def load (disk : Disk) (root : Text) (host : Host) (overrides : List Text) :
    Except Fault Project :=
  match readJson disk (Path.join root packageFile) with
  | .error fault => .error fault
  | .ok package =>
      match readJson disk (Path.join root versionFile) with
      | .error fault => .error fault
      | .ok version =>
          match completeMeta (Json.Members.merge [] package.members) version.members with
          | .error fault => .error fault
          | .ok data =>
              match applyOverrides overrides data with
              | .error fault => .error fault
              | .ok data => .ok ⟨data, root, host⟩

/-! ### Builds -/

/-- What is built from what. -/
structure Job where
  input : Text
  output : Text
  root : Text
  host : Host
  overrides : List Text

/-- Whether a file exists and was changed after another one, or the other one does not exist. -/
def isNewer (disk : Disk) (source output : Text) : Bool :=
  match disk.modified? source, disk.modified? output with
  | none, _ => false
  | some _, none => true
  | some changed, some built => built < changed

/-- The files that an output is made from, imports apart. -/
def sources (root input : Text) : List Text :=
  [input, Path.join root packageFile, Path.join root versionFile]

/-- Whether the output has to be built again: one of the files that it is made from is newer. -/
def isStale (disk : Disk) (root input output : Text) : Bool :=
  (sources root input).any fun source => isNewer disk source output

/-- The text that a build writes, with imports at most `levels` deep. -/
def output (disk : Disk) (levels : Nat) (job : Job) : Attempt Text := do
  let project ← load disk job.root job.host job.overrides
  let source ← readText disk job.input
  project.render disk levels source

/-- Writes a text to a file, and makes the directories above it. -/
def writeText (disk : Disk) (path text : Text) : Option Fault × Disk :=
  match disk.writeText path text with
  | (some cause, disk) => (some (.unwritable path cause), disk)
  | (none, disk) => (none, disk)

/-- Builds a file.  Nothing is written unless everything before has succeeded.  The build has no result
if imports nest more than `levels` deep. -/
def build (disk : Disk) (levels : Nat) (job : Job) : Option (Option Fault × Disk) :=
  match output disk levels job with
  | none => none
  | some (.error fault) => some (some fault, disk)
  | some (.ok text) => some (writeText disk job.output text)

/-- The host expression for a template file that stands where `residue` is open. -/
def compileFile (disk : Disk) (path : Text) (residue : Residue) (host : Host) :
    Except Fault Text :=
  match readText disk path with
  | .error fault => .error fault
  | .ok template =>
      match Template.compile host residue template with
      | .error rejection => .error (.rejected rejection)
      | .ok expression => .ok expression

end SafeTemplate.Project
