/-
**The two host languages.**

A template becomes an expression of a host language, CoffeeScript or JavaScript.  The expression
calls `E` on a snippet to escape its value, reads the `innerHTML` of an element, and calls `E.cat` on
a list of elements.  In CoffeeScript each snippet stands between backticks, which enclose JavaScript,
and so does each string literal.

Main definitions:

* `Host`, `Host.ofName?` — the host languages, by their names;
* `Host.literal`, `Host.embed` — a text as a string literal, a snippet as an expression;
* `Host.escapeCall`, `Host.content`, `Host.contents`, `Host.choose`, `Host.concat`, `Host.wrap`,
  `Host.assertion` — the expressions and the statement that templates need.
-/

import SafeTemplate.Json.Quoted

set_option autoImplicit false

namespace SafeTemplate

/-- A language that templates are compiled to. -/
inductive Host
  | coffeeScript
  | javaScript
  deriving DecidableEq, Repr, Inhabited

namespace Host

/-! ### Names -/

/-- The host language with the given name, long or short. -/
def ofName? (name : Text) : Option Host :=
  if name = "coffee".toList ∨ name = "coffeescript".toList then some .coffeeScript
  else if name = "js".toList ∨ name = "javascript".toList then some .javaScript
  else none

/-- The wording for a name that no host language has. -/
def unknownMessage (name : Text) : Text :=
  "Unknown target: ".toList ++ name

/-! ### Expressions -/

/-- A snippet of the template as an expression. -/
def embed (host : Host) (snippet : Text) : Text :=
  match host with
  | .coffeeScript => '`' :: (snippet ++ ['`'])
  | .javaScript => snippet

/-- One character of a text that is to stand between backticks. -/
def guardChar (c : Char) : Text :=
  if c = '`' then ['\\', '`'] else [c]

/-- A text with a backslash before each backtick. -/
def guardBackticks (s : Text) : Text :=
  s.flatMap guardChar

/-- The string literal for a text. -/
def literal (host : Host) (s : Text) : Text :=
  match host with
  | .coffeeScript => host.embed (guardBackticks (Json.quote s))
  | .javaScript => Json.quote s

/-- The expression for the empty text. -/
def emptyText : Text :=
  ['"', '"']

/-- The value of an expression as escaped text. -/
def escapeCall (expression : Text) : Text :=
  "E(".toList ++ expression ++ [')']

/-- The content of the element that an expression denotes. -/
def content (host : Host) (expression : Text) : Text :=
  match host with
  | .coffeeScript => expression ++ ".innerHTML".toList
  | .javaScript => '(' :: (expression ++ ").innerHTML".toList)

/-- The contents of the elements that an expression lists. -/
def contents (expression : Text) : Text :=
  "E.cat(".toList ++ expression ++ [')']

/-- One of two expressions, as a condition decides. -/
def choose (host : Host) (condition yes no : Text) : Text :=
  match host with
  | .coffeeScript =>
      "(if ".toList ++ condition ++ " then ".toList ++ yes ++ " else ".toList ++ no ++ [')']
  | .javaScript =>
      "((".toList ++ condition ++ ") ? ".toList ++ yes ++ " : ".toList ++ no ++ [')']

/-- Several expressions, put together. -/
def concat (parts : List Text) : Text :=
  " + ".toList.intercalate parts

/-- An object with the value of an expression as its content. -/
def wrap (host : Host) (expression : Text) : Text :=
  match host with
  | .coffeeScript => "(innerHTML: ".toList ++ expression ++ [')']
  | .javaScript => "\x7binnerHTML: ".toList ++ expression ++ ['}']

/-- A statement that fails when a condition does not hold, and names it. -/
def assertion (host : Host) (condition : Text) : Text :=
  match host with
  | .coffeeScript =>
      "throw new Error 'Assertion failed: ' + ".toList ++ host.literal condition ++
        " unless ".toList ++ condition
  | .javaScript =>
      "if (!(".toList ++ condition ++ ")) \x7b throw new Error('Assertion failed: ' + ".toList ++
        host.literal condition ++ "); \x7d".toList

end Host

end SafeTemplate
