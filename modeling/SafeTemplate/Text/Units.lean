/-
**UTF-16 code units.**

The length of a text and its positions, as a query sees them, are counted in UTF-16 code units: a
character above U+FFFF takes two units, a leading and a trailing surrogate, every other character
takes one.  A unit read by itself is a character again, and a lone surrogate reads as U+FFFD.

Main definitions: `Text.units`, `Text.ofUnit`.

Main result: `Text.ofUnit_of_lt` — the unit of a character up to U+FFFF reads as that character.
-/

import SafeTemplate.Text.Basic

set_option autoImplicit false

namespace SafeTemplate.Text

/-- The code units of one character. -/
def unitsOf (c : Char) : List Nat :=
  if c.toNat < 0x10000 then [c.toNat]
  else [0xD800 + (c.toNat - 0x10000) / 0x400, 0xDC00 + (c.toNat - 0x10000) % 0x400]

/-- The code units of a text. -/
def units (s : Text) : List Nat :=
  s.flatMap unitsOf

@[simp] theorem units_nil : units [] = [] := rfl

@[simp] theorem units_cons (c : Char) (s : Text) : units (c :: s) = unitsOf c ++ units s := by
  simp [units]

/-- Stands for a unit that is no character by itself. -/
def replacement : Char := '\uFFFD'

/-- The character that one code unit reads as, by itself. -/
def ofUnit (unit : Nat) : Char :=
  if 0xD800 ≤ unit ∧ unit ≤ 0xDFFF then replacement else Char.ofNat unit

/-- No character is a surrogate, and none lies above U+10FFFF. -/
theorem toNat_cases (c : Char) : c.toNat < 0xD800 ∨ 0xDFFF < c.toNat ∧ c.toNat < 0x110000 := by
  have valid := c.valid
  simp only [UInt32.isValidChar, Nat.isValidChar] at valid
  simp only [Char.toNat]
  omega

theorem ofUnit_of_lt {c : Char} (h : c.toNat < 0x10000) : (unitsOf c).map ofUnit = [c] := by
  have hcode := toNat_cases c
  have hc : ¬ (0xD800 ≤ c.toNat ∧ c.toNat ≤ 0xDFFF) := by omega
  simp [unitsOf, h, ofUnit, hc]

end SafeTemplate.Text
