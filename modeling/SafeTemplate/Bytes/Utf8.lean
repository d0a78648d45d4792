/-
**Bytes and text.**

A file holds bytes; as a text it is the characters that the bytes encode in UTF-8.  Bytes that are
not UTF-8 are no text.

Main definitions: `Utf8.encode`, `Utf8.decode?`.

Main results: `Utf8.decode?_encode`, `Utf8.encode_of_decode?` — the two are inverse to each other, so
a text that is written and read again is the same text.
-/

import SafeTemplate.Text.Basic

set_option autoImplicit false

namespace SafeTemplate.Utf8

/-- The bytes of a text. -/
def encode (s : Text) : ByteArray :=
  (String.ofList s).toUTF8

/-- The text that some bytes encode. -/
def decode? (bytes : ByteArray) : Option Text :=
  (String.fromUTF8? bytes).map String.toList

theorem decode?_encode (s : Text) : decode? (encode s) = some s := by
  unfold decode? encode String.fromUTF8?
  rw [String.toUTF8_eq_toByteArray, dif_pos (String.ofList s).isValidUTF8]
  exact congrArg some String.toList_ofList

theorem encode_of_decode? {bytes : ByteArray} {s : Text} (h : decode? bytes = some s) :
    encode s = bytes := by
  simp only [decode?, String.fromUTF8?, Option.map_eq_some_iff] at h
  obtain ⟨text, ht, rfl⟩ := h
  split at ht
  · next valid =>
      obtain rfl := Option.some.inj ht
      simp only [encode, String.ofList_toList]
      rfl
  · cases ht

end SafeTemplate.Utf8
