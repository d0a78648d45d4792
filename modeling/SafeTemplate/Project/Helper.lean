/-
**Helpers.**

A query can call eight helpers.  They read files of the project, compile templates, and write pieces
of host code.

Main definitions: `Helper`, `Helper.name`, `Helper.ofName?`, `Helper.arity`.

Main result: `Helper.ofName?_name`.
-/

import SafeTemplate.Text.Basic

set_option autoImplicit false

namespace SafeTemplate

/-- A helper that a query can call. -/
inductive Helper
  /-- Compiles a template. -/
  | html
  /-- Writes style sheets as string literals. -/
  | importCss
  /-- Compiles a template file. -/
  | importHtml
  /-- Writes an assertion, in a project with tests. -/
  | assertion
  /-- Reads a file as text. -/
  | read
  /-- Reads a JSON file. -/
  | readJson
  /-- Reads a file as Base64. -/
  | readBase64
  /-- Lists a directory. -/
  | list
  deriving DecidableEq, Repr

namespace Helper

/-- All helpers. -/
def all : List Helper :=
  [.html, .importCss, .importHtml, .assertion, .read, .readJson, .readBase64, .list]

/-- The name that a query calls a helper by. -/
def name : Helper → Text
  | .html => "html".toList
  | .importCss => "importCSS".toList
  | .importHtml => "importHTML".toList
  | .assertion => "assert".toList
  | .read => "read".toList
  | .readJson => "readJSON".toList
  | .readBase64 => "readBase64".toList
  | .list => "ls".toList

/-- The helper with the given name. -/
def ofName? (name : Text) : Option Helper :=
  all.find? fun helper => helper.name = name

theorem ofName?_name (helper : Helper) : ofName? helper.name = some helper := by
  cases helper <;> decide

/-- How many arguments a helper takes, in words. -/
def arity : Helper → Text
  | .importCss => "at least 1".toList
  | _ => "1".toList

end Helper

end SafeTemplate
