/-
**The fewest digits that read back.**

Of all decimal numbers `d · 10 ^ k` that round to a given binary64 number, the one with the fewest
digits is printed, and of two with as few digits the nearer.  The numbers that round to `m · 2 ^ e`
form an interval whose ends lie half way to its two neighbours; the ends belong to it if `m` is even.

The grids `10 ^ k ℤ` are tried from the coarsest to the finest.  If any point of a grid lies in the
interval, then so does one of the two grid points around the number itself, so those are the only two
looked at, and the first grid with a hit has the fewest digits.

Main definitions:

* `Decimal.Point` — the number `digits · 10 ^ exponent`;
* `Decimal.Rounding` — a number between the two ends of its interval, in quarters of its last place;
* `Decimal.shortest` — the point to print.
-/

import SafeTemplate.Decimal.Binary64

set_option autoImplicit false

namespace SafeTemplate.Decimal

/-- The number `digits · 10 ^ exponent`. -/
structure Point where
  digits : Nat
  exponent : Int
  deriving DecidableEq, Repr

/-- A positive binary64 number and the interval that rounds to it, all in units of `2 ^ exponent`. -/
structure Rounding where
  low : Nat
  value : Nat
  high : Nat
  exponent : Int
  /-- Whether the ends of the interval round to the number, too. -/
  closed : Bool

/-- The interval of a positive binary64 number.  Its lower neighbour is nearer than its upper one if
the mantissa is the least of its length, except at the bottom of the range. -/
def Rounding.ofDyadic (x : Dyadic) : Rounding :=
  let m := x.mantissa
  let low := if m = leadingUnit ∧ -1074 < x.exponent then 4 * m - 1 else 4 * m - 2
  ⟨low, 4 * m, 4 * m + 2, x.exponent - 2, m % 2 = 0⟩

/-- How many times `n · 2 ^ exponent` is to be counted when it is compared with a multiple of
`10 ^ k`: with `binaryScale` and `decimalScale` as factors, both become natural numbers. -/
def binaryScale (exponent k : Int) : Nat :=
  Nat.pow 10 (-k).toNat <<< exponent.toNat

@[inherit_doc binaryScale]
def decimalScale (exponent k : Int) : Nat :=
  Nat.pow 10 k.toNat <<< (-exponent).toNat

/-- The point of the grid `10 ^ k` that reads back, if there is one: the nearer of the two around the
number, and the even one if both are equally near. -/
def Rounding.pointOn? (x : Rounding) (k : Int) : Option Point :=
  -- Everything is scaled to natural numbers, so that the comparisons are exact.
  let here := x.value * binaryScale x.exponent k
  let low := x.low * binaryScale x.exponent k
  let high := x.high * binaryScale x.exponent k
  let unit := decimalScale x.exponent k
  let below := here / unit
  let above := below + 1
  let readsBack (d : Nat) : Bool :=
    if x.closed then low ≤ d * unit && d * unit ≤ high else low < d * unit && d * unit < high
  let down := here - below * unit
  let up := above * unit - here
  match readsBack below, readsBack above with
  | false, false => none
  | true, false => some ⟨below, k⟩
  | false, true => some ⟨above, k⟩
  | true, true => some ⟨if down < up ∨ (down = up ∧ below % 2 = 0) then below else above, k⟩

/-- The first hit on the grids `10 ^ k`, `10 ^ (k - 1)`, … -/
def Rounding.firstPoint (x : Rounding) : Nat → Int → Point
  | 0, k => ⟨0, k⟩
  | grids + 1, k =>
      match x.pointOn? k with
      | some point => point
      | none => x.firstPoint grids (k - 1)

/-- No binary64 number lies above this power of ten. -/
def coarsestGrid : Int := 309

/-- No binary64 number needs a grid finer than the one this many steps below the coarsest. -/
def gridCount : Nat := 650

/-- The decimal number with the fewest digits that reads back as the given positive one. -/
def shortest (x : Dyadic) : Point :=
  (Rounding.ofDyadic x).firstPoint gridCount coarsestGrid

end SafeTemplate.Decimal
