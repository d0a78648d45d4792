/-
**Expanding a source.**

Each block of a source is replaced by the value of its query.  A query can call helpers, and two of
them import other files, which are expanded in the same way first.  Nothing keeps a file from importing
itself, so an expansion is given a number of levels, and has no result if imports nest deeper.

Main definitions:

* `Project.styleLiterals` — a style sheet as string literals, one for each line;
* `Project.templateLine` — a template file as one line;
* `Project.call` — the value of a helper call;
* `Project.expand` — a source with its blocks replaced, within some levels;
* `Project.render`, `Project.evaluate`, `Project.callHelper` — a source, a query and a helper call, with
  imports nested as deep as the levels allow.
-/

import SafeTemplate.Json.Plain
import SafeTemplate.Project.Basic
import SafeTemplate.Project.Block
import SafeTemplate.Project.Evaluation
import SafeTemplate.Query.Reader
import SafeTemplate.Template.Emission
import SafeTemplate.Text.Entity

set_option autoImplicit false

namespace SafeTemplate.Project

/-! ### Imported files -/

/-- The texts of some files, put together. -/
def readAll (disk : Disk) : List Text → Except Fault Text
  | [] => .ok []
  | path :: more =>
      match readText disk path with
      | .error fault => .error fault
      | .ok text =>
          match readAll disk more with
          | .error fault => .error fault
          | .ok rest => .ok (text ++ rest)

/-- A style sheet as string literals, one for each line, with a plus sign at the ends of lines.  Blanks
around the whole and empty lines are dropped, and each backtick gets a backslash. -/
def styleLiterals (sheet : Text) : Text :=
  let lines :=
    match Text.lines (Text.collapseLineEnds (Text.trim sheet)) with
    | [] => [[]]
    | lines => lines
  Host.guardBackticks (" +\n".toList.intercalate (lines.map Json.quote))

/-- A template file as one line without indentation. -/
def templateLine (file : Text) : Text :=
  Text.dropLineEnds (Text.dropIndentation file)

/-- The path of a style sheet. -/
def stylePath (project : Project) (name : Text) : Text :=
  project.sourcePath ("css/".toList ++ name ++ ".css".toList)

/-- The path of a template file. -/
def templatePath (project : Project) (name : Text) : Text :=
  project.sourcePath (name ++ ".html".toList)

/-- A template as an object with it as its content. -/
def compileTemplate (project : Project) (template : Text) : Except Fault Text :=
  match Template.compileElement project.host template with
  | .error rejection => .error (.rejected rejection)
  | .ok expression => .ok expression

/-- The style sheets with the given names as string literals. -/
def importStyles (project : Project) (disk : Disk) (expand : Text → Attempt Text)
    (names : List Text) : Attempt Text := do
  let source ← readAll disk (names.map project.stylePath)
  let sheet ← expand source
  return styleLiterals sheet

/-- The template file with the given name as an object with it as its content. -/
def importTemplate (project : Project) (disk : Disk) (expand : Text → Attempt Text)
    (name : Text) : Attempt Text := do
  let file ← readText disk (project.templatePath name)
  let template ← expand (templateLine file)
  project.compileTemplate template

/-- An assertion in the host language, or nothing in a project without tests. -/
def assertion (project : Project) (condition : Text) : Text :=
  if project.testsEnabled then project.host.assertion condition else []

/-! ### Helper calls -/

/-- The only argument of a helper, which is a text. -/
def onlyText (helper : Helper) : List Json.Value → Except Fault Text
  | [.string s] => .ok s
  | [_] => .error (.argumentType helper)
  | arguments => .error (.argumentCount helper arguments.length)

/-- The arguments of a helper, which are texts. -/
def texts (helper : Helper) : List Json.Value → Except Fault (List Text)
  | [] => .ok []
  | .string s :: more =>
      match texts helper more with
      | .error fault => .error fault
      | .ok rest => .ok (s :: rest)
  | _ :: _ => .error (.argumentType helper)

/-- The arguments of a helper that takes at least one, which are texts. -/
def someTexts (helper : Helper) (arguments : List Json.Value) : Except Fault (List Text) :=
  if arguments.isEmpty then .error (.argumentCount helper 0) else texts helper arguments

/-- What a helper gives for one text. -/
def applyHelper (project : Project) (disk : Disk) (expand : Text → Attempt Text) (helper : Helper)
    (argument : Text) : Attempt Json.Value :=
  match helper with
  | .html => liftM ((project.compileTemplate argument).map .string)
  | .importCss => .string <$> project.importStyles disk expand [argument]
  | .importHtml => .string <$> project.importTemplate disk expand argument
  | .assertion => return .string (project.assertion argument)
  | .read => liftM ((readText disk (project.resolve argument)).map .string)
  | .readJson => liftM (readJson disk (project.resolve argument))
  | .readBase64 => liftM ((readBase64 disk (project.resolve argument)).map .string)
  | .list =>
      liftM ((list disk (project.resolve argument)).map fun names => .array (names.map .string))

/-- The value of a helper call.  `expand` expands what it imports. -/
def call (project : Project) (disk : Disk) (expand : Text → Attempt Text) (name : Text)
    (arguments : List Json.Value) : Attempt Json.Value :=
  match Helper.ofName? name with
  | none => throw (.unknownHelper name)
  | some .importCss => do
      let names ← someTexts .importCss arguments
      .string <$> project.importStyles disk expand names
  | some helper => do
      let argument ← onlyText helper arguments
      project.applyHelper disk expand helper argument

/-! ### Sources -/

/-- The value of the query that a text holds. -/
def valueOf (evaluate : Query → Attempt Json.Value) (source : Text) : Attempt Json.Value :=
  match Query.parse source with
  | .error complaint => throw (.badQuery (Text.trim source) complaint)
  | .ok query => evaluate query

/-- What a block inserts. -/
def insert (evaluate : Query → Attempt Json.Value) (block : Block) : Attempt Text :=
  match block.mode with
  | .code => throw (.codeBlock block.body)
  | .value => Json.Value.plain <$> valueOf evaluate block.body
  | .escaped => (fun value => Text.escapeHtml value.plain) <$> valueOf evaluate block.body

/-- The source with its blocks replaced.  It takes a level, and what it imports takes the levels below;
where no level is left, there is no result. -/
def expand (project : Project) (disk : Disk) : (levels : Nat) → Text → Attempt Text
  | 0, _ => none
  | levels + 1, source =>
      Block.substitute
        (insert (Query.evaluate project.data
          (project.call disk (project.expand disk levels)))) source

/-- The value of a helper call, with imports at most `levels` deep. -/
def callHelper (project : Project) (disk : Disk) (levels : Nat) (name : Text)
    (arguments : List Json.Value) : Attempt Json.Value :=
  project.call disk (project.expand disk levels) name arguments

/-- A helper that is called by its name with one text gives what it gives for this text. -/
theorem callHelper_text (project : Project) (disk : Disk) (levels : Nat) (helper : Helper) (s : Text) :
    project.callHelper disk levels helper.name [.string s] =
      project.applyHelper disk (project.expand disk levels) helper s := by
  rw [callHelper, call, Helper.ofName?_name]
  cases helper <;> rfl

/-- The value of a query, with imports at most `levels` deep. -/
def evaluate (project : Project) (disk : Disk) (levels : Nat) (query : Query) :
    Attempt Json.Value :=
  query.evaluate project.data (project.callHelper disk levels)

/-- The source with its blocks replaced, with imports at most `levels` deep. -/
def render (project : Project) (disk : Disk) (levels : Nat) (source : Text) : Attempt Text :=
  project.expand disk (levels + 1) source

theorem render_eq (project : Project) (disk : Disk) (levels : Nat) (source : Text) :
    project.render disk levels source =
      Block.substitute (insert (project.evaluate disk levels)) source := rfl

end SafeTemplate.Project
