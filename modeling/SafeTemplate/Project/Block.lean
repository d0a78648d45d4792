/-
**Substitution blocks.**

A source is a text with blocks: `<%=`, a query and `%>` insert the value of the query, `<%-` inserts
it with its markup escaped.  A block of bare `<%` holds code.  The body of a block is not empty and
ends at the first `%>` after its first character.  Text outside of blocks stands for itself, and so
does a `<%` that no `%>` follows.  What is inserted is not searched for blocks.

Main definitions:

* `Block`, `Block.read?` — a block and how it is read;
* `Block.substitute` — a text with each block replaced.

Main results:

* `Block.length_lt_of_read?` — what follows a block is shorter than the text that starts with it;
* `Block.substitute_cons`, `Block.substitute_of_read?` — a character that starts no block, and a block.
-/

import SafeTemplate.Text.Basic

set_option autoImplicit false

namespace SafeTemplate

/-- What a block inserts. -/
inductive Block.Mode
  | value
  | escaped
  | code
  deriving DecidableEq, Repr

/-- A block: what it inserts, and what stands in it. -/
structure Block where
  mode : Block.Mode
  body : Text
  deriving DecidableEq, Repr

namespace Block

/-- The end of a block. -/
def closing : Text := ['%', '>']

/-- The body of a block and what follows the block, after its opening. -/
def body? : Text → Option (Text × Text)
  | [] => none
  | c :: s => (Text.cut? closing s).map fun halves => (c :: halves.1, halves.2)

theorem length_lt_of_body? {s body rest : Text} (h : body? s = some (body, rest)) :
    rest.length < s.length := by
  cases s with
  | nil => cases h
  | cons c s =>
      simp only [body?, Option.map_eq_some_iff, Prod.mk.injEq, Prod.exists] at h
      obtain ⟨b, r, hcut, rfl, rfl⟩ := h
      have := Text.length_lt_of_cut? (by decide) hcut
      simp only [List.length_cons]
      omega

/-- A block of the given mode, after its opening. -/
def readBody? (mode : Mode) (s : Text) : Option (Block × Text) :=
  (body? s).map fun found => (⟨mode, found.1⟩, found.2)

theorem length_lt_of_readBody? {mode : Mode} {s rest : Text} {block : Block}
    (h : readBody? mode s = some (block, rest)) : rest.length < s.length := by
  simp only [readBody?, Option.map_eq_some_iff, Prod.mk.injEq, Prod.exists] at h
  obtain ⟨b, r, hbody, -, rfl⟩ := h
  exact length_lt_of_body? hbody

/-- The block at the start of the text, and what follows it.  An `=` or `-` that leaves no body is the
body of a block of code. -/
def read? : Text → Option (Block × Text)
  | '<' :: '%' :: '=' :: s => (readBody? .value s).or (readBody? .code ('=' :: s))
  | '<' :: '%' :: '-' :: s => (readBody? .escaped s).or (readBody? .code ('-' :: s))
  | '<' :: '%' :: s => readBody? .code s
  | _ => none

theorem length_lt_of_read? {s rest : Text} {block : Block} (h : read? s = some (block, rest)) :
    rest.length < s.length := by
  unfold read? at h
  split at h
  · rcases Option.or_eq_some_iff.1 h with h | ⟨-, h⟩
    all_goals
      have := length_lt_of_readBody? h
      simp only [List.length_cons] at this ⊢
      omega
  · rcases Option.or_eq_some_iff.1 h with h | ⟨-, h⟩
    all_goals
      have := length_lt_of_readBody? h
      simp only [List.length_cons] at this ⊢
      omega
  · have := length_lt_of_readBody? h
    simp only [List.length_cons] at this ⊢
    omega
  · cases h

/-- The text with each block replaced by what `insert` gives for it, from left to right. -/
def substitute {m : Type → Type} [Monad m] (insert : Block → m Text) (s : Text) : m Text :=
  match s with
  | [] => return []
  | c :: s =>
      match _h : read? (c :: s) with
      | some (block, rest) => do
          let text ← insert block
          let more ← substitute insert rest
          return text ++ more
      | none => do
          let more ← substitute insert s
          return c :: more
termination_by s.length
decreasing_by
  · exact length_lt_of_read? _h
  · simp

section Substitute

variable {m : Type → Type} [Monad m] {insert : Block → m Text}

theorem substitute_cons {c : Char} {s : Text} (h : read? (c :: s) = none) :
    substitute insert (c :: s) = do
      let more ← substitute insert s
      return c :: more := by
  rw [substitute]
  split
  · next hsome =>
      rw [h] at hsome
      cases hsome
  · rfl

theorem substitute_of_read? {s rest : Text} {block : Block} (h : read? s = some (block, rest)) :
    substitute insert s = do
      let text ← insert block
      let more ← substitute insert rest
      return text ++ more := by
  cases s with
  | nil => cases h
  | cons c s =>
      rw [substitute]
      split
      · next hsome =>
          rw [h] at hsome
          cases hsome
          rfl
      · next hnone =>
          rw [h] at hnone
          cases hnone

end Substitute

end Block

end SafeTemplate
