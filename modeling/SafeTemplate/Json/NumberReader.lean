/-
**Reading a JSON number.**

A number without fraction and exponent is an integer if it fits a 64-bit word: from `-2 ^ 63` to
`2 ^ 64 - 1`.  `-0` is the fraction `-0.0`.  Every other number is a binary64 number: its digits are
gathered in a 64-bit word, those that no longer fit only shift the exponent or are dropped, and the
word is scaled by a power of ten.  A number too large for binary64 is refused.

Main definitions: `Json.absorb`, `Json.scale`, `Json.readNumber`.
-/

import SafeTemplate.Json.Fault
import SafeTemplate.Json.Value

set_option autoImplicit false

namespace SafeTemplate.Json

/-- The value of a decimal digit. -/
def digitValue (c : Char) : Nat :=
  c.toNat - '0'.toNat

/-- Whether the text starts with a decimal digit. -/
def startsWithDigit : Text → Bool
  | [] => false
  | c :: _ => c.isDigit

/-- The text without the decimal digits at its start. -/
def dropDigits (s : Text) : Text :=
  s.dropWhile Char.isDigit

/-- Appends decimal digits to the number `n` as long as it stays below `limit`. -/
def absorb (limit n : Nat) : Text → Nat × Text
  | [] => (n, [])
  | c :: rest =>
      if c.isDigit ∧ n * 10 + digitValue c < limit then absorb limit (n * 10 + digitValue c) rest
      else (n, c :: rest)

/-- The first number that is too large for an exponent. -/
def exponentLimit : Nat := 0x80000000

/-- The greatest power of ten that is a binary64 number. -/
def greatestPower : Nat := 308

/-- A power of ten, up to the greatest. -/
def powerOfTen (n : Nat) : Float :=
  Float.ofScientific 1 false n

/-- The number `x · 10 ^ exponent`, or nothing if it is out of range.  Small numbers are divided by
the greatest power of ten until the rest of the exponent is a power of ten itself. -/
def scale (x : Float) (exponent : Int) : Option Float :=
  if exponent < -greatestPower then
    if x == 0.0 then some x else scale (x / powerOfTen greatestPower) (exponent + greatestPower)
  else if exponent < 0 then some (x / powerOfTen exponent.natAbs)
  -- Zero stays zero, and anything else is too large by now.
  else if greatestPower < exponent then if x == 0.0 then some x else none
  else
    let y := x * powerOfTen exponent.toNat
    if y.isInf then none else some y
termination_by exponent.natAbs
decreasing_by
  simp only [greatestPower] at *
  omega

/-- The opposite number, if `negative`. -/
def applySign (negative : Bool) (x : Float) : Float :=
  if negative then -x else x

/-- The end of a number: `significand · 10 ^ exponent`. -/
def finishNumber (negative : Bool) (significand : Nat) (exponent : Int) (rest : Text) :
    Except Stop (Number × Text) :=
  match scale (Float.ofNat significand) exponent with
  | some x => .ok (.float (applySign negative x), rest)
  | none => .error (.before .numberOutOfRange rest)

/-- The exponent, after its letter. -/
def readExponent (negative : Bool) (significand : Nat) (exponent : Int) (s : Text) :
    Except Stop (Number × Text) :=
  let (down, digits) :=
    match s with
    | '+' :: rest => (false, rest)
    | '-' :: rest => (true, rest)
    | rest => (false, rest)
  match digits with
  | [] => .error (.before .endInValue [])
  | c :: rest =>
      if !c.isDigit then .error (.onto .invalidNumber (c :: rest))
      else
        let (shift, rest) := absorb exponentLimit (digitValue c) rest
        -- An exponent that is out of bounds itself leaves only zero or a number out of range.
        if startsWithDigit rest then
          if significand ≠ 0 ∧ !down then .error (.before .numberOutOfRange (rest.drop 1))
          else .ok (.float (applySign negative 0.0), dropDigits rest)
        else
          finishNumber negative significand (if down then exponent - shift else exponent + shift) rest

/-- What follows the digits of a number that is no integer: an exponent or nothing. -/
def readScaled (negative : Bool) (significand : Nat) (exponent : Int) (s : Text) :
    Except Stop (Number × Text) :=
  match s with
  | 'e' :: rest => readExponent negative significand exponent rest
  | 'E' :: rest => readExponent negative significand exponent rest
  | rest => finishNumber negative significand exponent rest

/-- The digits after the point.  There is at least one. -/
def readFraction (negative : Bool) (significand : Nat) (exponent : Int) (s : Text) :
    Except Stop (Number × Text) :=
  if startsWithDigit s then
    let (significand, rest) := absorb wordLimit significand s
    readScaled negative significand (exponent - (s.length - rest.length : Nat)) (dropDigits rest)
  else
    match s with
    | [] => .error (.onto .endInValue [])
    | _ => .error (.onto .invalidNumber s)

/-- An integer, if it fits a 64-bit word, with or without its sign. -/
def wholeNumber (negative : Bool) (n : Nat) : Number :=
  if !negative then .int n
  else if n = 0 ∨ signedLimit < n then .float (-Float.ofNat n)
  else .int (-n)

/-- What follows the digits before the point. -/
def readTail (negative : Bool) (significand : Nat) (s : Text) : Except Stop (Number × Text) :=
  let shift := (s.takeWhile Char.isDigit).length
  match dropDigits s with
  | '.' :: rest => readFraction negative significand shift rest
  | 'e' :: rest => readExponent negative significand shift rest
  | 'E' :: rest => readExponent negative significand shift rest
  | rest =>
      if shift = 0 then .ok (wholeNumber negative significand, rest)
      else finishNumber negative significand shift rest

/-- Reads a number, after its minus sign if it is `negative`. -/
def readNumber (negative : Bool) : Text → Except Stop (Number × Text)
  | [] => .error (.before .endInValue [])
  | '0' :: rest =>
      if startsWithDigit rest then .error (.onto .invalidNumber rest) else readTail negative 0 rest
  | c :: rest =>
      if !c.isDigit then .error (.onto .invalidNumber (c :: rest))
      else
        let (significand, rest) := absorb wordLimit (digitValue c) rest
        readTail negative significand rest

end SafeTemplate.Json
