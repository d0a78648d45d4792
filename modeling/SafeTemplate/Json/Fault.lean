/-
**Why a text is no JSON document.**

A fault is a cause and the place where reading stopped: a line, counted from 1, and a column, the
number of bytes of that line up to the place.

Main definitions: `Json.Cause`, `Json.Fault`, `Json.position`.
-/

import SafeTemplate.Decimal.Numeral

set_option autoImplicit false

namespace SafeTemplate.Json

/-- What is wrong with a text that is no JSON document. -/
inductive Cause
  | endInList
  | endInObject
  | endInString
  | endInValue
  | expectedColon
  | expectedListEnd
  | expectedObjectEnd
  | expectedKeyword
  | expectedValue
  | controlCharacter
  | invalidEscape
  | invalidNumber
  | keyNotString
  | loneSurrogate
  | numberOutOfRange
  | tooDeep
  | trailingCharacters
  | trailingComma
  | unfinishedPair
  deriving DecidableEq, Repr

/-- The wording of a cause. -/
def Cause.message : Cause → Text
  | .endInList => "EOF while parsing a list".toList
  | .endInObject => "EOF while parsing an object".toList
  | .endInString => "EOF while parsing a string".toList
  | .endInValue => "EOF while parsing a value".toList
  | .expectedColon => "expected `:`".toList
  | .expectedListEnd => "expected `,` or `]`".toList
  | .expectedObjectEnd => "expected `,` or `\x7d`".toList
  | .expectedKeyword => "expected ident".toList
  | .expectedValue => "expected value".toList
  | .controlCharacter =>
      "control character (\\u0000-\\u001F) found while parsing a string".toList
  | .invalidEscape => "invalid escape".toList
  | .invalidNumber => "invalid number".toList
  | .keyNotString => "key must be a string".toList
  | .loneSurrogate => "lone leading surrogate in hex escape".toList
  | .numberOutOfRange => "number out of range".toList
  | .tooDeep => "recursion limit exceeded".toList
  | .trailingCharacters => "trailing characters".toList
  | .trailingComma => "trailing comma".toList
  | .unfinishedPair => "unexpected end of hex escape".toList

/-- A cause and the place where it was found. -/
structure Fault where
  cause : Cause
  line : Nat
  column : Nat
  deriving DecidableEq, Repr

/-- The wording of a fault. -/
def Fault.message (fault : Fault) : Text :=
  fault.cause.message ++ " at line ".toList ++ Decimal.numeral fault.line ++
    " column ".toList ++ Decimal.numeral fault.column

/-- The number of bytes of a text in UTF-8. -/
def byteCount : Text → Nat
  | [] => 0
  | c :: s => c.utf8Size + byteCount s

/-- The line and the column of the place `bytes` bytes further on from the given one. -/
def position (line column : Nat) (bytes : Nat) : Text → Nat × Nat
  | [] => (line, column)
  | c :: s =>
      if bytes = 0 then (line, column)
      else if c = '\n' then position (line + 1) 0 (bytes - 1) s
      else position line (column + min bytes c.utf8Size) (bytes - c.utf8Size) s

/-- Where reading stopped, as the number of bytes left. -/
structure Stop where
  cause : Cause
  left : Nat

/-- Stopped right before `rest`. -/
def Stop.before (cause : Cause) (rest : Text) : Stop :=
  ⟨cause, byteCount rest⟩

/-- Stopped after the first byte of `rest`, or at the end if there is none. -/
def Stop.onto (cause : Cause) (rest : Text) : Stop :=
  ⟨cause, byteCount rest - 1⟩

/-- The place in the whole text where reading stopped. -/
def Stop.fault (whole : Text) (stop : Stop) : Fault :=
  let place := position 1 0 (byteCount whole - stop.left) whole
  ⟨stop.cause, place.1, place.2⟩

end SafeTemplate.Json
