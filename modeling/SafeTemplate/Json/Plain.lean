/-
**A value as plain text.**

This is the text that a value is inserted as.  Null is the empty text, a text is itself, the items of
an array are joined by commas, and an object is its JSON text.  A whole number has no fraction and,
below `10 ^ 21`, no exponent either.  Integers above `2 ^ 63 - 1` are rounded to binary64 first.

Main definition: `Json.Value.plain`.
-/

import SafeTemplate.Json.Printer

set_option autoImplicit false

namespace SafeTemplate.Json

open Decimal

/-- The plain text of an integer. -/
def plainInt (n : Int) : Text :=
  if n < signedLimit then signed n else numeral (roundToDouble n.toNat)

/-- The first whole number that is written with an exponent, `10 ^ 21`. -/
def wholeLimit : Nat := 1000000000000000000000

/-- The plain text of a finite binary64 number. -/
def plainFloat (x : Float) : Text :=
  let fields := Dyadic.ofFloat x
  match fields.integer? with
  | some 0 => ['0']
  | some n =>
      if wholeLimit ≤ n then printFloat x
      else if fields.negative then '-' :: numeral n
      else numeral n
  | none => printFloat x

/-- The plain text of a number. -/
def Number.plain : Number → Text
  | .int n => plainInt n
  | .float x => plainFloat x

mutual

/-- The plain text of a value. -/
def Value.plain : Value → Text
  | .null => []
  | .bool true => "true".toList
  | .bool false => "false".toList
  | .number n => n.plain
  | .string s => s
  | .array items => [','].intercalate (plainItems items)
  | .object members => (Value.object members).print

/-- The plain texts of some values. -/
def plainItems : List Value → List Text
  | [] => []
  | item :: more => item.plain :: plainItems more

end

theorem plainItems_eq_map (items : List Value) : plainItems items = items.map Value.plain := by
  induction items with
  | nil => simp [plainItems]
  | cons item more ih => simp [plainItems, ih]

end SafeTemplate.Json
