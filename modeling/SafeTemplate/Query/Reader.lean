/-
**Reading a query.**

Blanks may stand before each token.  A name is read as far as it goes.  If it is a keyword, it is a
constant; if a parenthesis follows, it is the call of a helper; otherwise it starts a path.

Main definitions:

* `Query.readQuoted`, `Query.number?`, `Query.readName` — the tokens that are more than a character;
* `Query.readSteps`, `Query.readArguments` — what may follow a name;
* `Query.readTerm` — a query and what follows it;
* `Query.parse` — a whole text.

Main result: `Query.readName_append`.
-/

import SafeTemplate.Decimal.Numeral
import SafeTemplate.Query.Basic
import SafeTemplate.Text.Blank

set_option autoImplicit false

namespace SafeTemplate.Query

/-! ### Tokens -/

/-- What follows a given character, which blanks may precede. -/
def eat (c : Char) (s : Text) : Option Text :=
  match Text.skipBlank s with
  | d :: rest => if d = c then some rest else none
  | [] => none

/-- The character that a backslash and `c` denote. -/
def escaped (c : Char) : Char :=
  match c with
  | 'n' => '\n'
  | 't' => '\t'
  | 'r' => '\r'
  | '0' => '\x00'
  | c => c

/-- Reads a text in quotes, after its opening quote, up to and with its closing one. -/
def readQuoted (quote : Char) : Text → Except Complaint (Text × Text)
  | [] => .error .unterminated
  | c :: s =>
      if c = quote then .ok ([], s)
      else if c = '\\' then
        match s with
        | [] => .error .unterminated
        | d :: s =>
            match readQuoted quote s with
            | .error complaint => .error complaint
            | .ok (more, rest) => .ok (escaped d :: more, rest)
      else
        match readQuoted quote s with
        | .error complaint => .error complaint
        | .ok (more, rest) => .ok (c :: more, rest)

/-- The quotes that enclose a text. -/
def isQuote (c : Char) : Bool :=
  c == '\'' || c == '"'

/-- The characters that a name starts with. -/
def isNameStart (c : Char) : Bool :=
  c.isAlpha || c == '_' || c == '$'

/-- The characters of a name. -/
def isNameChar (c : Char) : Bool :=
  c.isAlphanum || c == '_' || c == '$'

/-- The name at the start of the text, as far as it goes, and what follows it. -/
def readName (s : Text) : Text × Text :=
  (s.takeWhile isNameChar, s.dropWhile isNameChar)

theorem readName_append (s : Text) : (readName s).1 ++ (readName s).2 = s :=
  List.takeWhile_append_dropWhile

/-- The constant that a keyword denotes. -/
def keyword? (name : Text) : Option Json.Value :=
  if name = "true".toList then some (.bool true)
  else if name = "false".toList then some (.bool false)
  else if name = "null".toList ∨ name = "undefined".toList then some .null
  else none

/-! ### Numbers -/

/-- The characters of a number, its sign apart. -/
def isNumberChar (c : Char) : Bool :=
  c.isDigit || c == '.'

/-- The binary64 number nearest to a decimal one with at most one point and at least one digit. -/
def float? (negative : Bool) (s : Text) : Option Float :=
  let whole := s.takeWhile Char.isDigit
  let fraction? :=
    match s.dropWhile Char.isDigit with
    | [] => some []
    | '.' :: digits => if digits.all Char.isDigit then some digits else none
    | _ => none
  match fraction? with
  | none => none
  | some fraction =>
      if (whole ++ fraction).isEmpty then none
      else
        let x := Float.ofScientific (Decimal.value (whole ++ fraction)) true fraction.length
        if x.isInf then none else some (if negative then -x else x)

/-- The number that a text denotes: an integer if it has digits only and fits a signed 64-bit word,
and else a binary64 number within range. -/
def number? (negative : Bool) (s : Text) : Option Json.Number :=
  let whole? : Option Int :=
    (Decimal.value? s).bind fun n =>
      if negative then if n ≤ Json.signedLimit then some (-(n : Int)) else none
      else if n < Json.signedLimit then some n else none
  match whole? with
  | some n => some (.int n)
  | none => (float? negative s).map Json.Number.float

/-- Reads a number, which may start with a minus sign. -/
def readNumber (s : Text) : Except Complaint (Json.Number × Text) :=
  let (negative, digits) :=
    match s with
    | '-' :: rest => (true, rest)
    | rest => (false, rest)
  let token := digits.takeWhile isNumberChar
  match number? negative token with
  | some n => .ok (n, digits.dropWhile isNumberChar)
  | none => .error (.number (if negative then '-' :: token else token))

/-! ### Paths -/

/-- Reads what stands in brackets: a text in quotes, or a position. -/
def readIndex (s : Text) : Except Complaint (Step × Text) :=
  match Text.skipBlank s with
  | [] => .error .index
  | c :: rest =>
      if isQuote c then
        match readQuoted c rest with
        | .error complaint => .error complaint
        | .ok (key, rest) => .ok (.key key, rest)
      else if c.isDigit then
        let digits := (c :: rest).takeWhile Char.isDigit
        if Decimal.value digits < Json.wordLimit then
          .ok (.index (Decimal.value digits), (c :: rest).dropWhile Char.isDigit)
        else .error (.indexTooLarge digits)
      else .error .index

/-- Reads the steps of a path: a point and a name, or something in brackets, again and again.  Each
step takes at least one character, so `fuel` is enough if it is the length of the text. -/
def readSteps : (fuel : Nat) → Text → Except Complaint (List Step × Text)
  | 0, s => .ok ([], s)
  | fuel + 1, s =>
      match eat '.' s with
      | some s =>
          match Text.skipBlank s with
          | [] => .error .propertyName
          | c :: s =>
              if isNameStart c then
                match readSteps fuel (readName (c :: s)).2 with
                | .error complaint => .error complaint
                | .ok (more, rest) => .ok (.key (readName (c :: s)).1 :: more, rest)
              else .error .propertyName
      | none =>
          match eat '[' s with
          | none => .ok ([], s)
          | some s =>
              match readIndex s with
              | .error complaint => .error complaint
              | .ok (step, rest) =>
                  match eat ']' rest with
                  | none => .error .closingBracket
                  | some rest =>
                      match readSteps fuel rest with
                      | .error complaint => .error complaint
                      | .ok (more, rest) => .ok (step :: more, rest)

/-! ### Queries -/

/-- Reads at least one argument, up to and with the closing parenthesis.  `fuel` is enough if it is
more than the length of the text. -/
def readArguments (term : Text → Except Complaint (Query × Text)) :
    (fuel : Nat) → Text → Except Complaint (List Query × Text)
  | 0, _ => .error .separator
  | fuel + 1, s =>
      match term s with
      | .error complaint => .error complaint
      | .ok (argument, rest) =>
          match eat ')' rest with
          | some rest => .ok ([argument], rest)
          | none =>
              match eat ',' rest with
              | none => .error .separator
              | some rest =>
                  match readArguments term fuel rest with
                  | .error complaint => .error complaint
                  | .ok (more, rest) => .ok (argument :: more, rest)

/-- Reads a query.  Its calls nest at most `depth` deep; each takes at least two characters, so the
length of the text is enough. -/
def readTerm : (depth : Nat) → Text → Except Complaint (Query × Text)
  | depth, s =>
      match Text.skipBlank s with
      | [] => .error .missing
      | c :: s =>
          if isQuote c then
            match readQuoted c s with
            | .error complaint => .error complaint
            | .ok (text, rest) => .ok (.constant (.string text), rest)
          else if c.isDigit || c == '-' then
            match readNumber (c :: s) with
            | .error complaint => .error complaint
            | .ok (n, rest) => .ok (.constant (.number n), rest)
          else if isNameStart c then
            let (name, rest) := readName (c :: s)
            match keyword? name with
            | some value => .ok (.constant value, rest)
            | none =>
                match eat '(' rest with
                -- Without a parenthesis the name is the start of a path.
                | none =>
                    match readSteps rest.length rest with
                    | .error complaint => .error complaint
                    | .ok (steps, rest) => .ok (.path name steps, rest)
                | some rest =>
                    match eat ')' rest with
                    | some rest => .ok (.call name [], rest)
                    | none =>
                        match depth with
                        | 0 => .error .missing
                        | depth + 1 =>
                            match readArguments (readTerm depth) (rest.length + 1) rest with
                            | .error complaint => .error complaint
                            | .ok (arguments, rest) => .ok (.call name arguments, rest)
          else .error (.unexpected [c])

/-- Reads a whole text as a query, with blanks around it. -/
def parse (source : Text) : Except Complaint Query :=
  match readTerm source.length source with
  | .error complaint => .error complaint
  | .ok (query, rest) =>
      match Text.skipBlank rest with
      | [] => .ok query
      | rest => .error (.unexpected rest)

end SafeTemplate.Query
