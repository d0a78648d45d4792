/-
**Paths.**

A path is a text: names with slashes between them.  A path that starts with a slash is absolute.

Main definitions:

* `Path.join` — a path below another one;
* `Path.pieces` — the texts between the slashes;
* `Path.names` — the pieces that are neither empty nor a point;
* `Path.parent?` — the names above the last one;
* `Path.directory?` — the path of the directory that holds what a path names.
-/

import SafeTemplate.Text.Basic

set_option autoImplicit false

namespace SafeTemplate.Path

/-- Whether a path starts with a slash. -/
def isAbsolute : Text → Bool
  | '/' :: _ => true
  | _ => false

/-- Whether a path ends with a slash. -/
def endsWithSlash (path : Text) : Bool :=
  path.getLast? == some '/'

/-- The path `below`, taken from `base`.  An absolute one stands for itself. -/
def join (base below : Text) : Text :=
  if isAbsolute below then below
  else if base.isEmpty || endsWithSlash base then base ++ below
  else base ++ '/' :: below

/-- The texts between the slashes of a path. -/
def pieces : Text → List Text
  | [] => [[]]
  | c :: s =>
      if c = '/' then [] :: pieces s
      else
        match pieces s with
        | [] => [[c]]
        | piece :: more => (c :: piece) :: more

/-- The directory itself, as a piece of a path. -/
def here : Text := ['.']

/-- The directory above, as a piece of a path. -/
def above : Text := ['.', '.']

/-- The pieces of a path that lead somewhere. -/
def names (path : Text) : List Text :=
  (pieces path).filter fun piece => !piece.isEmpty && piece != here

/-- The names of the directory that holds what the path names, if the path names anything. -/
def parent? (path : Text) : Option (List Text) :=
  match names path with
  | [] => none
  | name :: more => some (name :: more).dropLast

/-- The path of the directory that holds what the path names, if the path has a name for it. -/
def directory? (path : Text) : Option Text :=
  match parent? path with
  | none | some [] => none
  | some names =>
      some ((if isAbsolute path then ['/'] else []) ++ ['/'].intercalate names)

end SafeTemplate.Path
