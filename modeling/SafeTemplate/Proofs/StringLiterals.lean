/-
**What a string literal denotes.**

A text becomes a string literal of the host language.  In JavaScript it is a JSON string literal.  In
CoffeeScript a second layer comes on top: each backtick gets a backslash, whatever stands before it,
and the whole stands between backticks.  Still nothing is lost.  The two layers together write one
character after the other, each as itself or behind one backslash of its own, so a reader that knows
one escape more reads the characters back.

That a quote or a backtick is escaped is said by counting the backslashes before it.  The count is odd
exactly if the last of them is not itself escaped; and the characters before it leave an even number
at their end, so each character can be looked at by itself.

Main definitions:

* `Host.enclosed` — a string literal, by what stands inside;
* `Host.Inside` — what may stand inside one;
* `Host.denoted?` — the text that a string literal denotes.

Main results:

* `Host.Inside.append` — what stands inside may be put together;
* `Host.denoted?_flatMap` — what is written inside denotes the text;
* `Host.literal_denotes` — **a string literal is well-formed and denotes its text**.
-/

import SafeTemplate.Proofs.Backticks

set_option autoImplicit false

namespace SafeTemplate

namespace Host

/-! ### The parts of a string literal -/

/-- The string literal with the given text inside. -/
def enclosed (host : Host) (body : Text) : Text :=
  match host with
  | .coffeeScript => '`' :: '"' :: (body ++ ['"', '`'])
  | .javaScript => '"' :: (body ++ ['"'])

theorem literal_eq_enclosed (host : Host) (s : Text) :
    host.literal s = host.enclosed (s.flatMap host.writtenChar) := by
  cases host with
  | coffeeScript => exact literal_coffeeScript s
  | javaScript => rfl

/-! ### Backslashes -/

/-- Behind a text that leaves no backslash over, the backslashes at the end are counted anew. -/
theorem even_backslashesAtEnd_append {s : Text} (hs : Even (backslashesAtEnd s)) (t : Text) :
    Even (backslashesAtEnd (s ++ t)) ↔ Even (backslashesAtEnd t) := by
  unfold backslashesAtEnd at hs ⊢
  rw [List.reverse_append, List.takeWhile_append]
  split
  · next hall =>
      rw [List.length_append, hall, Nat.even_add]
      exact iff_true_right hs
  · rfl

theorem odd_backslashesAtEnd_append {s : Text} (hs : Even (backslashesAtEnd s)) (t : Text) :
    Odd (backslashesAtEnd (s ++ t)) ↔ Odd (backslashesAtEnd t) := by
  rw [← Nat.not_even_iff_odd, ← Nat.not_even_iff_odd, even_backslashesAtEnd_append hs]

theorem backslashesAtEnd_of_not_mem {s : Text} (h : '\\' ∉ s) : backslashesAtEnd s = 0 := by
  induction s with
  | nil => rfl
  | cons c s ih =>
      obtain ⟨hc, hs⟩ := not_or.1 (fun hmem => h (List.mem_cons.2 hmem))
      rw [backslashesAtEnd_plain (Ne.symm hc), ih hs]

/-! ### What stands inside -/

/-- A text that may stand inside a string literal: it has no control characters, every guarded
character in it is escaped, and no backslash is left over at its end. -/
structure Inside (host : Host) (body : Text) : Prop where
  visible : ∀ c ∈ body, 0x20 ≤ c.toNat
  escaped : ∀ u c v, body = u ++ c :: v → host.isGuarded c = true → Odd (backslashesAtEnd u)
  complete : Even (backslashesAtEnd body)

namespace Inside

variable {host : Host}

theorem nil : host.Inside [] where
  visible := by simp
  escaped := by simp
  complete := ⟨0, rfl⟩

/-- **What may stand inside a string literal may be put together.** -/
theorem append {s t : Text} (hs : host.Inside s) (ht : host.Inside t) : host.Inside (s ++ t) where
  visible := List.forall_mem_append.2 ⟨hs.visible, ht.visible⟩
  escaped := by
    intro u c v heq hc
    rcases List.append_eq_append_iff.1 heq with ⟨w, rfl, hw⟩ | ⟨w, rfl, hw⟩
    · rw [odd_backslashesAtEnd_append hs.complete]
      exact ht.escaped w c v hw hc
    · cases w with
      | nil =>
          -- `t` would start with a guarded character
          have hodd : Odd 0 := ht.escaped [] c v hw.symm hc
          exact absurd hodd (by decide)
      | cons d w =>
          obtain ⟨rfl, -⟩ := List.cons.inj hw
          exact hs.escaped u c w rfl hc
  complete := (even_backslashesAtEnd_append hs.complete t).2 ht.complete

theorem flatMap {f : Char → Text} (h : ∀ c, host.Inside (f c)) (s : Text) :
    host.Inside (s.flatMap f) := by
  induction s with
  | nil => exact nil
  | cons c s ih => exact (h c).append ih

end Inside

namespace Inside

variable {host : Host} {c : Char} {run : Text}

theorem bare (h : host.isBare c = true) : host.Inside [c] where
  visible := List.forall_mem_singleton.2 (isBare_iff.1 h).2.2
  escaped := by
    intro u d v heq hd
    rcases List.singleton_eq_append_iff.1 heq with ⟨rfl, hcons⟩ | ⟨-, hnil⟩
    · obtain ⟨rfl, -⟩ := List.cons.inj hcons
      rw [(isBare_iff.1 h).2.1] at hd
      cases hd
    · cases hnil
  complete := by
    rw [backslashesAtEnd_plain (isBare_iff.1 h).1]
    exact ⟨0, rfl⟩

theorem escape (hc : 0x20 ≤ c.toNat) (hrun : ∀ d ∈ run, host.isBare d = true) :
    host.Inside ('\\' :: c :: run) where
  visible := by
    intro d hd
    rcases List.mem_cons.1 hd with rfl | hd
    · decide
    · rcases List.mem_cons.1 hd with rfl | hd
      · exact hc
      · exact (isBare_iff.1 (hrun d hd)).2.2
  escaped := by
    intro u d v heq hd
    match u with
    | [] =>
        obtain ⟨rfl, -⟩ := List.cons.inj heq
        cases host <;> cases hd
    | [b] =>
        obtain ⟨rfl, -⟩ := List.cons.inj heq
        decide
    | b :: e :: u =>
        obtain ⟨-, hrest⟩ := List.cons.inj (List.cons.inj heq).2
        have hmem : d ∈ run := by
          rw [hrest]
          exact List.mem_append_right u (List.mem_cons_self ..)
        have hguarded := (isBare_iff.1 (hrun d hmem)).2.1
        rw [hd] at hguarded
        cases hguarded
  complete := by
    have hnone : '\\' ∉ run := fun hmem => (isBare_iff.1 (hrun _ hmem)).1 rfl
    rw [even_backslashesAtEnd_escape, backslashesAtEnd_of_not_mem hnone]
    exact ⟨0, rfl⟩

/-- A character may stand inside a string literal as it is written. -/
theorem writtenChar (host : Host) (c : Char) : host.Inside (host.writtenChar c) := by
  rcases host.writtenChar_cases c with ⟨hwritten, hbare⟩ | ⟨next, run, hwritten, hnext, hrun⟩
  · rw [hwritten]
    exact bare hbare
  · rw [hwritten]
    exact escape hnext hrun

end Inside

/-! ### Reading -/

/-- The text that a string literal denotes, from what stands inside it. -/
def denoted? (host : Host) (s : Text) : Option Text :=
  match s with
  | [] => some []
  | c :: s =>
      match _h : host.readChar? (c :: s) with
      | none => none
      | some (d, rest) => (denoted? host rest).map (d :: ·)
termination_by s.length
decreasing_by exact length_lt_of_readChar? _h

theorem denoted?_of_readChar? {host : Host} {s rest : Text} {c : Char}
    (h : host.readChar? s = some (c, rest)) :
    host.denoted? s = (host.denoted? rest).map (c :: ·) := by
  cases s with
  | nil => cases h
  | cons d s =>
      rw [denoted?]
      split
      · next hnone =>
          rw [h] at hnone
          cases hnone
      · next hsome =>
          rw [h] at hsome
          cases hsome
          rfl

theorem denoted?_flatMap (host : Host) (s : Text) :
    host.denoted? (s.flatMap host.writtenChar) = some s := by
  induction s with
  | nil => rw [List.flatMap_nil, denoted?]
  | cons c s ih =>
      rw [List.flatMap_cons, denoted?_of_readChar? (readChar?_writtenChar host c _), ih]
      rfl

/-- **A string literal is well-formed and denotes its text.**  In both host languages it has no control
character inside, every quote inside is escaped, in CoffeeScript every backtick, too, and no backslash
is left over before the closing quote; and reading what stands inside gives back the text. -/
theorem literal_denotes (host : Host) (s : Text) :
    ∃ body, host.literal s = host.enclosed body ∧ host.Inside body ∧
      host.denoted? body = some s := by
  refine ⟨s.flatMap host.writtenChar, literal_eq_enclosed host s, ?_, denoted?_flatMap host s⟩
  exact Inside.flatMap (Inside.writtenChar host) s

/-- A backslash before a backtick: each of them has a backslash of its own. -/
example : literal .coffeeScript ['\\', '`'] = "`\"\\\\\\`\"`".toList := rfl

end Host

end SafeTemplate
