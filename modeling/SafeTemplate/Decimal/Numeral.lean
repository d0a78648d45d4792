/-
**Decimal numerals.**

Main definitions: `Decimal.numeral`, `Decimal.signed`, `Decimal.value`, `Decimal.value?`.

Main results: `Decimal.value_numeral` — a numeral reads as its number; `Decimal.numeral_injective`.
-/

import SafeTemplate.Text.Basic

set_option autoImplicit false

namespace SafeTemplate.Decimal

/-- The decimal digits of a natural number, without leading zeros. -/
def numeral (n : Nat) : Text :=
  Nat.toDigits 10 n

/-- The decimal digits of an integer, after a minus sign if it is negative. -/
def signed (n : Int) : Text :=
  if n < 0 then '-' :: numeral n.natAbs else numeral n.natAbs

/-- The number that some decimal digits denote. -/
def value (digits : Text) : Nat :=
  Nat.ofDigitChars 10 digits 0

/-- The number that a text of at least one decimal digit, and nothing else, denotes. -/
def value? (digits : Text) : Option Nat :=
  if !digits.isEmpty && digits.all Char.isDigit then some (value digits) else none

@[simp] theorem value_numeral (n : Nat) : value (numeral n) = n :=
  Nat.ofDigitChars_toDigits (by omega) (by omega)

theorem numeral_injective {m n : Nat} (h : numeral m = numeral n) : m = n := by
  have := congrArg value h
  simpa using this

theorem isDigit_of_mem_numeral {n : Nat} {c : Char} (h : c ∈ numeral n) : c.isDigit :=
  Nat.isDigit_of_mem_toDigits (by omega) (by omega) h

end SafeTemplate.Decimal
