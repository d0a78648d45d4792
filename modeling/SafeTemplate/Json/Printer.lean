/-
**JSON text of a value.**

Values are printed without spaces.  A fraction has the fewest digits that read back.  It is written
positionally if its first digit stands for a power of ten from `10 ^ -5` to `10 ^ 15`, with `.0` if it
is whole, and otherwise with an exponent that has its sign.

Main definitions: `Json.Number.print`, `Json.Value.print`.
-/

import SafeTemplate.Decimal.Numeral
import SafeTemplate.Decimal.Shortest
import SafeTemplate.Json.Quoted
import SafeTemplate.Json.Value

set_option autoImplicit false

namespace SafeTemplate.Json

open Decimal

/-! ### Numbers -/

/-- The least power of ten that the first digit of a positional number stands for. -/
def lowestPositional : Int := -5

/-- The greatest power of ten that the first digit of a positional number stands for. -/
def highestPositional : Int := 15

/-- The text of the number `digits · 10 ^ exponent`, which is not zero. -/
def printPoint (point : Point) : Text :=
  let digits := numeral point.digits
  let first := point.exponent + digits.length - 1
  if first < lowestPositional ∨ highestPositional < first then
    let fraction := if digits.length = 1 then [] else '.' :: digits.drop 1
    let sign := if first < 0 then '-' else '+'
    digits.take 1 ++ fraction ++ 'e' :: sign :: numeral first.natAbs
  else if 0 ≤ point.exponent then
    digits ++ List.replicate point.exponent.toNat '0' ++ ".0".toList
  else if 0 ≤ first then
    digits.take (first.toNat + 1) ++ '.' :: digits.drop (first.toNat + 1)
  else
    "0.".toList ++ List.replicate (-first - 1).toNat '0' ++ digits

/-- The text of a finite binary64 number.  Zero keeps its sign. -/
def printFloat (x : Float) : Text :=
  let fields := Dyadic.ofFloat x
  let magnitude := if fields.mantissa = 0 then "0.0".toList else printPoint (shortest fields)
  if fields.negative then '-' :: magnitude else magnitude

/-- The JSON text of a number. -/
def Number.print : Number → Text
  | .int n => signed n
  | .float x => printFloat x

/-! ### Values -/

mutual

/-- The JSON text of a value. -/
def Value.print : Value → Text
  | .null => "null".toList
  | .bool true => "true".toList
  | .bool false => "false".toList
  | .number n => n.print
  | .string s => quote s
  | .array items => '[' :: ([','].intercalate (printItems items) ++ [']'])
  | .object members => '{' :: ([','].intercalate (printMembers members) ++ ['}'])

/-- The JSON texts of some values. -/
def printItems : List Value → List Text
  | [] => []
  | item :: more => item.print :: printItems more

/-- The JSON texts of some members. -/
def printMembers : List (Text × Value) → List Text
  | [] => []
  | (key, value) :: more => (quote key ++ ':' :: value.print) :: printMembers more

end

theorem printItems_eq_map (items : List Value) : printItems items = items.map Value.print := by
  induction items with
  | nil => simp [printItems]
  | cons item more ih => simp [printItems, ih]

theorem printMembers_eq_map (members : Members) :
    printMembers members = members.map fun member => quote member.1 ++ ':' :: member.2.print := by
  induction members with
  | nil => simp [printMembers]
  | cons member more ih => simp [printMembers, ih]

end SafeTemplate.Json
