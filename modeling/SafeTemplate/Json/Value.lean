/-
**JSON values.**

Integers and fractions are kept apart, because they are printed differently.  The members of an
object are kept in the order of their keys, by code point, and each key occurs once.

Main definitions:

* `Json.wordLimit`, `Json.signedLimit` — the limits of 64-bit words;
* `Json.Number`, `Json.Value`, `Json.Members`;
* `Members.lookup`, `Members.insert`, `Members.merge` — the members of an object as a finite map;
* `Json.Value.isTrue` — the truth of a value as a condition.

Main results: `Members.lookup_insert` — what an insertion changes.
-/

import SafeTemplate.Text.Basic

set_option autoImplicit false

namespace SafeTemplate.Json

/-- The first number that no 64-bit word holds, `2 ^ 64`. -/
def wordLimit : Nat := 0x10000000000000000

/-- The first number that no signed 64-bit word holds, `2 ^ 63`. -/
def signedLimit : Nat := 0x8000000000000000

/-- A number: an integer, at least `-signedLimit` and below `wordLimit`, or a finite binary64 number. -/
inductive Number
  | int (n : Int)
  | float (x : Float)
  deriving DecidableEq, Inhabited

/-- A JSON value. -/
inductive Value
  | null
  | bool (b : Bool)
  | number (n : Number)
  | string (s : Text)
  | array (items : List Value)
  | object (members : List (Text × Value))
  deriving Inhabited

/-- The members of an object, in the order of their keys. -/
abbrev Members := List (Text × Value)

/-! ### Members as a finite map -/

namespace Members

/-- The value of the member with the given key. -/
def lookup (key : Text) : Members → Option Value
  | [] => none
  | (k, v) :: more => if k = key then some v else lookup key more

/-- Adds a member, in the place of one with the same key if there is one. -/
def insert (key : Text) (value : Value) : Members → Members
  | [] => [(key, value)]
  | (k, v) :: more =>
      if key = k then (key, value) :: more
      else if key < k then (key, value) :: (k, v) :: more
      else (k, v) :: insert key value more

theorem lookup_insert (key key' : Text) (value : Value) (members : Members) :
    lookup key' (insert key value members) =
      if key = key' then some value else lookup key' members := by
  induction members with
  | nil => simp [insert, lookup]
  | cons member more ih =>
      obtain ⟨k, v⟩ := member
      unfold insert
      by_cases hk : key = k
      · subst hk
        by_cases h : key = key' <;> simp [lookup, h]
      · by_cases hlt : key < k
        · by_cases h : key = key'
          · subst h
            simp [lookup, hk, hlt]
          · simp [lookup, hk, hlt, h]
        · by_cases h : key = key'
          · subst h
            simp [lookup, hk, hlt, ih, Ne.symm hk]
          · simp [lookup, hk, hlt, ih, h]

/-- Adds all members of `more`, one after the other. -/
def merge (members more : Members) : Members :=
  more.foldl (fun all member => insert member.1 member.2 all) members

@[simp] theorem merge_nil (members : Members) : merge members [] = members := rfl

@[simp] theorem merge_cons (members : Members) (key : Text) (value : Value) (more : Members) :
    merge members ((key, value) :: more) = merge (insert key value members) more := rfl

end Members

/-- The members of an object; no other value has any. -/
def Value.members : Value → Members
  | .object members => members
  | _ => []

/-! ### Truth -/

/-- Whether a number is not zero. -/
def Number.isTrue : Number → Bool
  | .int n => n != 0
  | .float x => x != 0.0

/-- The truth of a value as a condition.  Null, zero and the empty text are false; every array and
every object is true. -/
def Value.isTrue : Value → Bool
  | .null => false
  | .bool b => b
  | .number n => n.isTrue
  | .string s => !s.isEmpty
  | .array _ => true
  | .object _ => true

end SafeTemplate.Json
