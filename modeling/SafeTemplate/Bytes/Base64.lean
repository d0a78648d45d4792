/-
**Base64.**

The standard alphabet, with padding: three bytes give four characters of six bits each, and a last
group of one or two bytes is filled up with `=`.

Main definition: `Base64.encode`.
-/

import SafeTemplate.Text.Basic

set_option autoImplicit false

namespace SafeTemplate.Base64

/-- The character for six bits. -/
def digit (sextet : Nat) : Char :=
  if sextet < 26 then Char.ofNat ('A'.toNat + sextet)
  else if sextet < 52 then Char.ofNat ('a'.toNat + (sextet - 26))
  else if sextet < 62 then Char.ofNat ('0'.toNat + (sextet - 52))
  else if sextet = 62 then '+' else '/'

/-- The `count` leading characters for a group of three bytes, given as one number. -/
def digits (count group : Nat) : Text :=
  ([group / 0x40000, group / 0x1000 % 64, group / 64 % 64, group % 64].take count).map digit

/-- The text of some bytes. -/
def encode : List UInt8 → Text
  | [] => []
  | [a] => digits 2 (a.toNat * 0x10000) ++ ['=', '=']
  | [a, b] => digits 3 (a.toNat * 0x10000 + b.toNat * 0x100) ++ ['=']
  | a :: b :: c :: more =>
      digits 4 (a.toNat * 0x10000 + b.toNat * 0x100 + c.toNat) ++ encode more

theorem length_encode (bytes : List UInt8) :
    (encode bytes).length = (bytes.length + 2) / 3 * 4 := by
  fun_induction encode bytes with
  | case1 => rfl
  | case2 a => simp [digits]
  | case3 a b => simp [digits]
  | case4 a b c more ih =>
      simp only [List.length_append, ih, digits, List.length_map, List.length_take,
        List.length_cons, List.length_nil]
      omega

end SafeTemplate.Base64
