/-
**Reading a command line.**

Flags and options are taken from anywhere in the list of arguments, each once and in a fixed order; the
value of an option is the argument after it, whatever it is.  Of what remains the first is the command
and the others are its arguments, none of which may start with a hyphen.

Main definitions:

* `Cli.takeFlag`, `Cli.takeOption` — taking one flag or one option;
* `Cli.Options`, `Cli.Options.parse` — what a command line says;
* `Cli.Refusal` — why a command line is refused.
-/

import SafeTemplate.Host
import SafeTemplate.Text.Quoted

set_option autoImplicit false

namespace SafeTemplate.Cli

/-! ### Refusals -/

/-- Why a command line is refused. -/
inductive Refusal
  /-- No argument follows an option. -/
  | missingValue (option : Text)
  /-- No host language has this name. -/
  | unknownHost (name : Text)
  /-- These arguments start with a hyphen and are neither flag nor option. -/
  | unknownArguments (arguments : List Text)
  deriving DecidableEq, Repr

/-- The wording of a refusal. -/
def Refusal.message : Refusal → Text
  | .missingValue option =>
      "the '".toList ++ option ++ "' option doesn't have an associated value".toList
  | .unknownHost name =>
      "failed to parse '".toList ++ name ++ "': ".toList ++ Host.unknownMessage name
  | .unknownArguments arguments => "Unknown arguments: ".toList ++ Text.quotedList arguments

/-! ### Flags and options -/

/-- Whether a flag is among the arguments, and the arguments without its first occurrence. -/
def takeFlag (flag : Text) (arguments : List Text) : Bool × List Text :=
  (arguments.contains flag, arguments.erase flag)

/-- The value of the first occurrence of an option, and the arguments without the two. -/
def takeOption (option : Text) : List Text → Except Refusal (Option Text × List Text)
  | [] => .ok (none, [])
  | argument :: more =>
      if argument = option then
        match more with
        | [] => .error (.missingValue option)
        | value :: more => .ok (some value, more)
      else
        match takeOption option more with
        | .error refusal => .error refusal
        | .ok (value?, more) => .ok (value?, argument :: more)

/-! ### Command lines -/

/-- What a command line says. -/
structure Options where
  command : Text
  verbose : Bool
  checkOnly : Bool
  root : Text
  host : Host
  context : Text
  arguments : List Text
  deriving DecidableEq, Repr

/-- Whether an argument looks like a flag or an option. -/
def isHyphenated : Text → Bool
  | '-' :: _ => true
  | _ => false

/-- The flag that asks for more output, in its short and its long form.  The short one is looked for
first, and only one of them is taken. -/
def takeVerbose (arguments : List Text) : Bool × List Text :=
  match takeFlag "-v".toList arguments with
  | (true, more) => (true, more)
  | (false, _) => takeFlag "--verbose".toList arguments

/-- The host language that an option names, if it is given. -/
def takeHost (arguments : List Text) : Except Refusal (Host × List Text) :=
  match takeOption "--target".toList arguments with
  | .error refusal => .error refusal
  | .ok (none, more) => .ok (.coffeeScript, more)
  | .ok (some name, more) =>
      match Host.ofName? name with
      | none => .error (.unknownHost name)
      | some host => .ok (host, more)

/-- What a command line says, the name of the program apart. -/
def Options.parse (arguments : List Text) : Except Refusal Options :=
  let (verbose, arguments) := takeVerbose arguments
  let (checkOnly, arguments) := takeFlag "--check-only".toList arguments
  match takeOption "--root".toList arguments with
  | .error refusal => .error refusal
  | .ok (root?, arguments) =>
      match takeHost arguments with
      | .error refusal => .error refusal
      | .ok (host, arguments) =>
          match takeOption "--context".toList arguments with
          | .error refusal => .error refusal
          | .ok (context?, arguments) =>
              let unknown := (arguments.drop 1).filter isHyphenated
              if unknown.isEmpty then
                .ok {
                  command := arguments.headD []
                  verbose
                  checkOnly
                  root := root?.getD ['.']
                  host
                  context := context?.getD []
                  arguments := arguments.drop 1 }
              else .error (.unknownArguments unknown)

end SafeTemplate.Cli
