/-
**A project.**

A project has data, which its sources are filled with, a root directory, and a host language.

Main definitions:

* `Project`, `Project.resolve`, `Project.sourcePath`, `Project.testsEnabled`;
* `Project.readText`, `Project.readJson`, `Project.readBase64`, `Project.list` — reading files.
-/

import SafeTemplate.Bytes.Base64
import SafeTemplate.Host
import SafeTemplate.Json.Reader
import SafeTemplate.Project.Fault

set_option autoImplicit false

namespace SafeTemplate

/-- What a source is filled with, where its files are, and the language it is written for. -/
structure Project where
  data : Json.Members
  root : Text
  host : Host

namespace Project

/-- The file with the data of a project. -/
def packageFile : Text := "package.json".toList

/-- The file that completes the metadata of a project. -/
def versionFile : Text := "version.json".toList

/-- The directory that imported files are taken from. -/
def sourceDirectory : Text := "src".toList

/-- A path taken from the root of the project. -/
def resolve (project : Project) (path : Text) : Text :=
  Path.join project.root path

/-- A path taken from the source directory of the project. -/
def sourcePath (project : Project) (path : Text) : Text :=
  Path.join (Path.join project.root sourceDirectory) path

/-- Whether the project has tests: its member `tests_enabled` is true. -/
def testsEnabled (project : Project) : Bool :=
  match Json.Members.lookup "tests_enabled".toList project.data with
  | some value => value.isTrue
  | none => false

/-! ### Reading files -/

/-- A file as text, with LF at the ends of lines. -/
def readText (disk : Disk) (path : Text) : Except Fault Text :=
  match disk.readText path with
  | .error cause => .error (.unreadable path cause)
  | .ok text => .ok text

/-- The value that a JSON file holds. -/
def readJson (disk : Disk) (path : Text) : Except Fault Json.Value :=
  match readText disk path with
  | .error fault => .error fault
  | .ok text =>
      match Json.parse text with
      | .error cause => .error (.invalidJson path cause)
      | .ok value => .ok value

/-- A file as Base64. -/
def readBase64 (disk : Disk) (path : Text) : Except Fault Text :=
  match disk.readBytes path with
  | .error cause => .error (.unreadable path cause)
  | .ok bytes => .ok (Base64.encode bytes.toList)

/-- The names in a directory, in order. -/
def list (disk : Disk) (path : Text) : Except Fault (List Text) :=
  match disk.entries path with
  | .error cause => .error (.unreadable path cause)
  | .ok names => .ok names

end Project

end SafeTemplate
