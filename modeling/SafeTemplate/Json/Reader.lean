/-
**Reading a JSON document.**

The reader takes one character after the other and never goes back.  It refuses a document at the
first place where it cannot go on, and says where that is.  Arrays and objects nest at most 127 deep.

Main definitions:

* `Json.readString` — a string literal, after its opening quote;
* `Json.readItems`, `Json.readMembers` — what stands in an array or an object;
* `Json.readValue` — a value and what follows it;
* `Json.parse` — a whole document.
-/

import SafeTemplate.Json.NumberReader

set_option autoImplicit false

namespace SafeTemplate.Json

/-- Whether a character may stand between two tokens. -/
def isSpace (c : Char) : Bool :=
  c == ' ' || c == '\n' || c == '\t' || c == '\r'

/-- The text without the space at its start. -/
def skipSpace (s : Text) : Text :=
  s.dropWhile isSpace

/-! ### String literals -/

/-- The value of a hexadecimal digit, in either case. -/
def hexValue? (c : Char) : Option Nat :=
  if c.isDigit then some (c.toNat - '0'.toNat)
  else if 'a' ≤ c ∧ c ≤ 'f' then some (c.toNat - 'a'.toNat + 10)
  else if 'A' ≤ c ∧ c ≤ 'F' then some (c.toNat - 'A'.toNat + 10)
  else none

/-- Why a text does not start with four hexadecimal digits: it has no four bytes, or they are something
else, and then all four are taken. -/
def Stop.notHex (s : Text) : Stop :=
  if byteCount s < 4 then ⟨.endInString, 0⟩ else ⟨.invalidEscape, byteCount s - 4⟩

/-- The number that four hexadecimal digits denote. -/
def readHex (s : Text) : Except Stop (Nat × Text) :=
  match s with
  | a :: b :: c :: d :: rest =>
      match hexValue? a, hexValue? b, hexValue? c, hexValue? d with
      | some a, some b, some c, some d => .ok (((a * 16 + b) * 16 + c) * 16 + d, rest)
      | _, _, _, _ => .error (.notHex s)
  | _ => .error (.notHex s)

/-- The character that `\u` and four hexadecimal digits denote, or two such escapes: a leading and a
trailing surrogate.  Reading starts after the first `\u`. -/
def readUnicode (s : Text) : Except Stop (Char × Text) :=
  match readHex s with
  | .error stop => .error stop
  | .ok (lead, rest) =>
      -- A trailing surrogate cannot come first.
      if 0xDC00 ≤ lead ∧ lead ≤ 0xDFFF then .error (.before .loneSurrogate rest)
      else if lead < 0xD800 ∨ 0xDBFF < lead then .ok (Char.ofNat lead, rest)
      else
        match rest with
        | [] => .error (.before .endInString [])
        | '\\' :: [] => .error (.before .endInString [])
        | '\\' :: 'u' :: rest =>
            match readHex rest with
            | .error stop => .error stop
            | .ok (trail, rest) =>
                if trail < 0xDC00 ∨ 0xDFFF < trail then .error (.before .loneSurrogate rest)
                else .ok (Char.ofNat (0x10000 + (lead - 0xD800) * 0x400 + (trail - 0xDC00)), rest)
        | '\\' :: rest => .error (.onto .unfinishedPair rest)
        | rest => .error (.onto .unfinishedPair rest)

/-- The character that an escape denotes.  Reading starts after the backslash. -/
def readEscape : Text → Except Stop (Char × Text)
  | [] => .error (.before .endInString [])
  | '"' :: rest => .ok ('"', rest)
  | '\\' :: rest => .ok ('\\', rest)
  | '/' :: rest => .ok ('/', rest)
  | 'b' :: rest => .ok ('\x08', rest)
  | 'f' :: rest => .ok ('\x0c', rest)
  | 'n' :: rest => .ok ('\n', rest)
  | 'r' :: rest => .ok ('\r', rest)
  | 't' :: rest => .ok ('\t', rest)
  | 'u' :: rest => readUnicode rest
  | rest => .error (.onto .invalidEscape rest)

theorem length_lt_of_readHex {s rest : Text} {n : Nat} (h : readHex s = .ok (n, rest)) :
    rest.length < s.length := by
  unfold readHex at h
  split at h
  · split at h
    · cases h
      simp only [List.length_cons]
      omega
    · cases h
  · cases h

theorem length_lt_of_readUnicode {s rest : Text} {c : Char} (h : readUnicode s = .ok (c, rest)) :
    rest.length < s.length := by
  unfold readUnicode at h
  split at h
  · cases h
  · next lead r hr =>
      have hlead := length_lt_of_readHex hr
      split at h
      · cases h
      · split at h
        · cases h
          exact hlead
        · split at h
          · cases h
          · cases h
          · split at h
            · cases h
            · next trail r' hr' =>
                have htrail := length_lt_of_readHex hr'
                simp only [List.length_cons] at hlead
                split at h
                · cases h
                · simp only [Except.ok.injEq, Prod.mk.injEq] at h
                  rw [← h.2]
                  omega
          · cases h
          · cases h

theorem length_lt_of_readEscape {s rest : Text} {c : Char} (h : readEscape s = .ok (c, rest)) :
    rest.length < s.length := by
  unfold readEscape at h
  split at h
  case h_10 r =>
    have := length_lt_of_readUnicode h
    simp only [List.length_cons]
    omega
  all_goals
    cases h <;> exact Nat.lt_succ_self _

/-- Reads a string literal after its opening quote, up to and with its closing one. -/
def readString (s : Text) : Except Stop (Text × Text) :=
  match s with
  | [] => .error (.before .endInString [])
  | '"' :: rest => .ok ([], rest)
  | '\\' :: rest =>
      match _h : readEscape rest with
      | .error stop => .error stop
      | .ok (c, rest) =>
          match readString rest with
          | .error stop => .error stop
          | .ok (more, rest) => .ok (c :: more, rest)
  | c :: rest =>
      if c.toNat < 0x20 then .error (.onto .controlCharacter (c :: rest))
      else
        match readString rest with
        | .error stop => .error stop
        | .ok (more, rest) => .ok (c :: more, rest)
termination_by s.length
decreasing_by
  · have := length_lt_of_readEscape _h
    simp only [List.length_cons]
    omega
  · simp

/-! ### Arrays and objects -/

/-- Reads the items of an array that has at least one, up to and with the closing bracket.  Each item
takes at least one character, so `fuel` is enough if it is the length of the text. -/
def readItems (value : Text → Except Stop (Value × Text)) :
    (fuel : Nat) → Text → Except Stop (List Value × Text)
  | 0, s => .error (.onto .endInList s)
  | fuel + 1, s =>
      match value s with
      | .error stop => .error stop
      | .ok (item, rest) =>
          match skipSpace rest with
          | [] => .error (.onto .endInList [])
          | ']' :: rest => .ok ([item], rest)
          | ',' :: rest =>
              match skipSpace rest with
              | [] => .error (.onto .endInValue [])
              | ']' :: rest => .error (.onto .trailingComma (']' :: rest))
              | rest =>
                  match readItems value fuel rest with
                  | .error stop => .error stop
                  | .ok (more, rest) => .ok (item :: more, rest)
          | rest => .error (.onto .expectedListEnd rest)

/-- Reads one member of an object, after the opening quote of its key. -/
def readMember (value : Text → Except Stop (Value × Text)) (s : Text) :
    Except Stop ((Text × Value) × Text) :=
  match readString s with
  | .error stop => .error stop
  | .ok (key, rest) =>
      match skipSpace rest with
      | [] => .error (.onto .endInObject [])
      | ':' :: rest =>
          match value rest with
          | .error stop => .error stop
          | .ok (item, rest) => .ok ((key, item), rest)
      | rest => .error (.onto .expectedColon rest)

/-- Reads the members of an object that has at least one, after the opening quote of the first key, up
to and with the closing brace.  `fuel` is as for `readItems`.  A later member replaces an earlier one
with the same key. -/
def readMembers (value : Text → Except Stop (Value × Text)) :
    (fuel : Nat) → Members → Text → Except Stop (Members × Text)
  | 0, _, s => .error (.onto .endInObject s)
  | fuel + 1, members, s =>
      match readMember value s with
      | .error stop => .error stop
      | .ok ((key, item), rest) =>
          let members := members.insert key item
          match skipSpace rest with
          | [] => .error (.onto .endInObject [])
          | '}' :: rest => .ok (members, rest)
          | ',' :: rest =>
              match skipSpace rest with
              | [] => .error (.onto .endInValue [])
              | '"' :: rest => readMembers value fuel members rest
              | '}' :: rest => .error (.onto .trailingComma ('}' :: rest))
              | rest => .error (.onto .keyNotString rest)
          | rest => .error (.onto .expectedObjectEnd rest)

/-- Reads an array after its opening bracket. -/
def readArray (value : Text → Except Stop (Value × Text)) (s : Text) :
    Except Stop (Value × Text) :=
  match skipSpace s with
  | [] => .error (.onto .endInList [])
  | ']' :: rest => .ok (.array [], rest)
  | rest =>
      match readItems value rest.length rest with
      | .error stop => .error stop
      | .ok (items, rest) => .ok (.array items, rest)

/-- Reads an object after its opening brace. -/
def readObject (value : Text → Except Stop (Value × Text)) (s : Text) :
    Except Stop (Value × Text) :=
  match skipSpace s with
  | [] => .error (.onto .endInObject [])
  | '}' :: rest => .ok (.object [], rest)
  | '"' :: rest =>
      match readMembers value (rest.length + 1) [] rest with
      | .error stop => .error stop
      | .ok (members, rest) => .ok (.object members, rest)
  | rest => .error (.onto .keyNotString rest)

/-! ### Values and documents -/

/-- Reads the rest of a keyword. -/
def readKeyword (value : Value) : (word : Text) → Text → Except Stop (Value × Text)
  | [], rest => .ok (value, rest)
  | _ :: _, [] => .error (.before .endInValue [])
  | c :: word, d :: rest =>
      if c = d then readKeyword value word rest else .error (.onto .expectedKeyword (d :: rest))

/-- Reads a number as a value. -/
def readNumeric (negative : Bool) (s : Text) : Except Stop (Value × Text) :=
  match readNumber negative s with
  | .error stop => .error stop
  | .ok (n, rest) => .ok (.number n, rest)

/-- Reads a value, and the space before it.  Its arrays and objects nest at most `depth` deep. -/
def readValue : (depth : Nat) → Text → Except Stop (Value × Text)
  | depth, s =>
      match skipSpace s with
      | [] => .error (.onto .endInValue [])
      | 'n' :: rest => readKeyword .null "ull".toList rest
      | 't' :: rest => readKeyword (.bool true) "rue".toList rest
      | 'f' :: rest => readKeyword (.bool false) "alse".toList rest
      | '-' :: rest => readNumeric true rest
      | '"' :: rest =>
          match readString rest with
          | .error stop => .error stop
          | .ok (text, rest) => .ok (.string text, rest)
      | '[' :: rest =>
          match depth with
          | 0 => .error (.onto .tooDeep ('[' :: rest))
          | depth + 1 => readArray (readValue depth) rest
      | '{' :: rest =>
          match depth with
          | 0 => .error (.onto .tooDeep ('{' :: rest))
          | depth + 1 => readObject (readValue depth) rest
      | c :: rest =>
          if c.isDigit then readNumeric false (c :: rest)
          else .error (.onto .expectedValue (c :: rest))

/-- How deep the arrays and objects of a document nest at most. -/
def nestingLimit : Nat := 127

/-- Reads a document: one value, with space around it. -/
def parse (s : Text) : Except Fault Value :=
  match readValue nestingLimit s with
  | .error stop => .error (stop.fault s)
  | .ok (value, rest) =>
      match skipSpace rest with
      | [] => .ok value
      | rest => .error ((Stop.onto .trailingCharacters rest).fault s)

end SafeTemplate.Json
