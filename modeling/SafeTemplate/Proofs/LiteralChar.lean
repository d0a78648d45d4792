/-
**A character in a string literal.**

Inside a string literal a character stands for itself, or behind a backslash of its own.  In JavaScript
the escapes are those of JSON.  In CoffeeScript each backtick gets a backslash on top of them.  Either
way a reader that knows these escapes reads each character back, whatever follows it.

Main definitions:

* `Host.isGuarded`, `Host.isBare` — the characters that need a backslash, and those that need none;
* `Host.writtenChar` — how a character is written;
* `Host.readChar?` — the reader of one character.

Main results:

* `Host.writtenChar_cases` — a character is written as itself, or behind a backslash;
* `Host.readChar?_writtenChar` — **each character is read back**, whatever follows it.
-/

import Mathlib.Tactic.IntervalCases
import SafeTemplate.Host
import SafeTemplate.Json.Reader

set_option autoImplicit false

namespace SafeTemplate

namespace Host

/-! ### Writing -/

/-- A character that starts or ends something in the code of a template. -/
def isMark (c : Char) : Bool :=
  c == '`' || c == '"'

/-- The characters that may stand inside a string literal only behind a backslash. -/
def isGuarded (host : Host) (c : Char) : Bool :=
  match host with
  | .coffeeScript => isMark c
  | .javaScript => c == '"'

/-- How a character is written inside a string literal. -/
def writtenChar (host : Host) (c : Char) : Text :=
  match host with
  | .coffeeScript => guardBackticks (Json.escapeChar c)
  | .javaScript => Json.escapeChar c

/-- The characters that may stand for themselves inside a string literal. -/
def isBare (host : Host) (c : Char) : Bool :=
  c != '\\' && !host.isGuarded c && 0x20 ≤ c.toNat

/-- Whether a text is a backslash, any visible character, and bare characters. -/
def isEscape (host : Host) : Text → Bool
  | '\\' :: c :: run => 0x20 ≤ c.toNat && run.all host.isBare
  | _ => false

theorem isBare_iff {host : Host} {c : Char} :
    host.isBare c = true ↔ c ≠ '\\' ∧ host.isGuarded c = false ∧ 0x20 ≤ c.toNat := by
  simp [isBare, and_assoc]

/-- Control characters are looked at by their numbers. -/
@[elab_as_elim]
theorem control_induction {P : Char → Prop} (c : Char) (hc : c.toNat < 0x20)
    (h : ∀ n < 0x20, P (Char.ofNat n)) : P c := by
  have hchar := h c.toNat hc
  rwa [Char.ofNat_toNat] at hchar

section Chars

variable {host : Host} {c : Char}

theorem writtenChar_of_isBare (h : host.isBare c = true) : host.writtenChar c = [c] := by
  obtain ⟨hb, hguarded, hvisible⟩ := isBare_iff.1 h
  cases host with
  | coffeeScript =>
      obtain ⟨ht, hq⟩ : c ≠ '`' ∧ c ≠ '"' := by simpa [isGuarded, isMark] using hguarded
      rw [writtenChar, Json.escapeChar_of_plain hq hb hvisible]
      simp [guardBackticks, guardChar, ht]
  | javaScript => exact Json.escapeChar_of_plain (by simpa [isGuarded] using hguarded) hb hvisible

/-- A character is a control character, a backslash, a guarded character, or a bare one. -/
theorem char_cases (host : Host) (c : Char) :
    c.toNat < 0x20 ∨ c = '\\' ∨ host.isGuarded c = true ∨ host.isBare c = true := by
  by_cases hcontrol : c.toNat < 0x20
  · exact Or.inl hcontrol
  · by_cases hb : c = '\\'
    · exact Or.inr (Or.inl hb)
    · cases hguarded : host.isGuarded c with
      | true => exact Or.inr (Or.inr (Or.inl rfl))
      | false => exact Or.inr (Or.inr (Or.inr (isBare_iff.2 ⟨hb, hguarded, by omega⟩)))

theorem isGuarded_cases (h : host.isGuarded c = true) :
    c = '"' ∨ (host = .coffeeScript ∧ c = '`') := by
  cases host with
  | coffeeScript =>
      rcases Bool.or_eq_true_iff.1 h with ht | hq
      · exact Or.inr ⟨rfl, beq_iff_eq.1 ht⟩
      · exact Or.inl (beq_iff_eq.1 hq)
  | javaScript => exact Or.inl (beq_iff_eq.1 h)

theorem isEscape_control (host : Host) :
    ∀ n < 0x20, host.isEscape (host.writtenChar (Char.ofNat n)) = true := by
  cases host <;> decide

theorem exists_of_isEscape {s : Text} (h : host.isEscape s = true) :
    ∃ next run, s = '\\' :: next :: run ∧ 0x20 ≤ next.toNat ∧ ∀ d ∈ run, host.isBare d = true := by
  unfold isEscape at h
  split at h
  · next next run =>
      rw [Bool.and_eq_true, decide_eq_true_eq, List.all_eq_true] at h
      exact ⟨next, run, rfl, h⟩
  · cases h

/-- **A character is written as itself if it is bare**, and otherwise behind a backslash, with only bare
characters behind the next one. -/
theorem writtenChar_cases (host : Host) (c : Char) :
    (host.writtenChar c = [c] ∧ host.isBare c = true) ∨
      ∃ next run, host.writtenChar c = '\\' :: next :: run ∧ 0x20 ≤ next.toNat ∧
        ∀ d ∈ run, host.isBare d = true := by
  rcases host.char_cases c with hcontrol | rfl | hguarded | hbare
  · exact .inr (exists_of_isEscape (control_induction c hcontrol (isEscape_control host)))
  · exact .inr (exists_of_isEscape (by cases host <;> rfl))
  · rcases isGuarded_cases hguarded with rfl | ⟨rfl, rfl⟩
    · exact .inr (exists_of_isEscape (by cases host <;> rfl))
    · exact .inr (exists_of_isEscape rfl)
  · exact .inl ⟨writtenChar_of_isBare hbare, hbare⟩

end Chars

/-! ### Reading -/

/-- The character that is written at the start of a text inside a string literal, and what follows it.
There is none where the literal would end, or be broken. -/
def readChar? (host : Host) : Text → Option (Char × Text)
  | [] => none
  | '\\' :: '"' :: s => some ('"', s)
  | '\\' :: '\\' :: s => some ('\\', s)
  | '\\' :: 'b' :: s => some ('\x08', s)
  | '\\' :: 'f' :: s => some ('\x0c', s)
  | '\\' :: 'n' :: s => some ('\n', s)
  | '\\' :: 'r' :: s => some ('\r', s)
  | '\\' :: 't' :: s => some ('\t', s)
  | '\\' :: '`' :: s => if host = .coffeeScript then some ('`', s) else none
  | '\\' :: 'u' :: s =>
      match Json.readHex s with
      | .error _ => none
      -- half of a surrogate pair is no character
      | .ok (code, rest) => if code.isValidChar then some (Char.ofNat code, rest) else none
  | c :: s => if host.isBare c then some (c, s) else none

theorem length_lt_of_readChar? {host : Host} {s rest : Text} {c : Char}
    (h : host.readChar? s = some (c, rest)) : rest.length < s.length := by
  unfold readChar? at h
  split at h
  case h_9 s =>
    split at h <;> cases h
    simp only [List.length_cons]
    omega
  case h_10 s =>
    split at h
    · cases h
    · next code rest' hread =>
        have hlt := Json.length_lt_of_readHex hread
        split at h <;> cases h
        simp only [List.length_cons]
        omega
  case h_11 d s _ _ _ _ _ _ _ _ _ =>
    split at h <;> cases h
    simp only [List.length_cons]
    omega
  all_goals
    cases h <;> (simp only [List.length_cons]; omega)

theorem readChar?_control (host : Host) (s : Text) :
    ∀ n < 0x20, host.readChar? (host.writtenChar (Char.ofNat n) ++ s) = some (Char.ofNat n, s) := by
  intro n hn
  cases host <;> interval_cases n <;> rfl

/-- **Each character is read back**, whatever follows it. -/
theorem readChar?_writtenChar (host : Host) (c : Char) (s : Text) :
    host.readChar? (host.writtenChar c ++ s) = some (c, s) := by
  rcases host.char_cases c with hcontrol | rfl | hguarded | hbare
  · exact control_induction c hcontrol (readChar?_control host s)
  · cases host <;> rfl
  · rcases isGuarded_cases hguarded with rfl | ⟨rfl, rfl⟩
    · cases host <;> rfl
    · rfl
  · rw [writtenChar_of_isBare hbare]
    have hb := (isBare_iff.1 hbare).1
    simp [readChar?, hb, hbare]

end Host

end SafeTemplate
