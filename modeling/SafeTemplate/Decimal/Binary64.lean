/-
**Binary64 numbers as dyadic fractions.**

A finite binary64 number is `± m · 2 ^ e` for a natural `m` below `2 ^ 53` and an integer `e`.  All
further work on its decimal text is done on `m` and `e`, in exact arithmetic.

Main definitions:

* `leadingUnit` — the value of the leading digit of a mantissa;
* `Dyadic`, `Dyadic.ofFloat` — the sign, the mantissa and the exponent;
* `Dyadic.integer?` — the magnitude, if it is a whole number;
* `roundToDouble` — the binary64 number nearest to a natural number, a tie going to the even one.
-/

import SafeTemplate.Text.Basic

set_option autoImplicit false

namespace SafeTemplate

/-- The value of the leading digit of a mantissa, `2 ^ 52`.  This digit is not stored. -/
def leadingUnit : Nat := 0x10000000000000

/-- The number `± mantissa · 2 ^ exponent`. -/
structure Dyadic where
  negative : Bool
  mantissa : Nat
  exponent : Int
  deriving DecidableEq, Repr

namespace Dyadic

/-- The fields of a finite binary64 number: 1 bit of sign, 11 of exponent, 52 of fraction. -/
def ofFloat (x : Float) : Dyadic :=
  let bits : Nat := x.toBits.toNat
  let fraction := bits % leadingUnit
  let biased := bits / leadingUnit % 0x800
  let negative := decide (0x800 * leadingUnit ≤ bits)
  -- Below the least exponent the leading digit of the mantissa is zero.
  if biased = 0 then ⟨negative, fraction, -1074⟩
  else ⟨negative, leadingUnit + fraction, (biased : Int) - 1075⟩

/-- The magnitude of a whole number, and nothing for any other. -/
def integer? (x : Dyadic) : Option Nat :=
  match x.exponent with
  | .ofNat e => some (x.mantissa <<< e)
  | .negSucc e =>
      let whole := x.mantissa >>> (e + 1)
      if whole <<< (e + 1) = x.mantissa then some whole else none

end Dyadic

/-- The binary64 number nearest to `n`; of two equally near ones, the one with the even mantissa.
Meant for numbers within the range of binary64. -/
def roundToDouble (n : Nat) : Nat :=
  if n < 2 * leadingUnit then n
  else
    let unit := 1 <<< (n.log2 - 52)
    let kept := n / unit
    let dropped := 2 * (n % unit)
    if unit < dropped ∨ (dropped = unit ∧ kept % 2 = 1) then (kept + 1) * unit else kept * unit

/-- The largest 64-bit word is not a binary64 number, and its neighbour above is. -/
example : roundToDouble 0xFFFFFFFFFFFFFFFF = 0x10000000000000000 := by decide

end SafeTemplate
