/-
**Members in the order of their keys.**

The members of an object are kept in the order of their keys, so that each key occurs once.  Adding a
member keeps the order, and since the reader of documents does nothing else, every object that is read
has it.  The order matters where objects are merged: the members of the second one are added one after
the other, and with two members of one key the last one would win, while looking a key up finds the
first.

Main definition: `Json.Members.Ordered`.

Main results:

* `Json.Members.Ordered.insert` — adding a member keeps the order;
* `Json.Members.lookup_merge` — **the members of the second object hide those of the first**;
* `Json.ordered_parse` — the members of a document are in order.
-/

import Mathlib
import SafeTemplate.Json.Reader

set_option autoImplicit false

namespace SafeTemplate.Json

namespace Members

/-! ### The order -/

/-- Each key comes after those before it. -/
def Ordered (members : Members) : Prop :=
  members.Pairwise fun member later => member.1 < later.1

theorem Ordered.nil : Ordered [] := List.Pairwise.nil

theorem mem_insert {key : Text} {value : Value} {members : Members} {member : Text × Value}
    (h : member ∈ insert key value members) : member = (key, value) ∨ member ∈ members := by
  induction members with
  | nil => exact Or.inl (List.mem_singleton.1 h)
  | cons first more ih =>
      obtain ⟨k, v⟩ := first
      rw [insert] at h
      split at h
      · rcases List.mem_cons.1 h with hnew | hmore
        · exact Or.inl hnew
        · exact Or.inr (List.mem_cons_of_mem _ hmore)
      · split at h
        · exact List.mem_cons.1 h
        · rcases List.mem_cons.1 h with hfirst | hmore
          · exact Or.inr (List.mem_cons.2 (Or.inl hfirst))
          · exact (ih hmore).imp_right (List.mem_cons_of_mem _)

/-- Adding a member keeps the order. -/
theorem Ordered.insert {members : Members} (h : Ordered members) (key : Text) (value : Value) :
    Ordered (insert key value members) := by
  induction members with
  | nil => exact List.pairwise_singleton ..
  | cons first more ih =>
      obtain ⟨k, v⟩ := first
      obtain ⟨hfirst, hmore⟩ := List.pairwise_cons.1 h
      rw [Members.insert]
      split
      · next heq =>
          subst heq
          exact List.pairwise_cons.2 ⟨hfirst, hmore⟩
      · next hne =>
          split
          · next hlt =>
              refine List.pairwise_cons.2 ⟨?_, h⟩
              intro member hmember
              rcases List.mem_cons.1 hmember with rfl | hmember
              · exact hlt
              · exact hlt.trans (hfirst member hmember)
          · next hge =>
              refine List.pairwise_cons.2 ⟨?_, ih hmore⟩
              intro member hmember
              rcases mem_insert hmember with rfl | hmember
              · exact lt_of_le_of_ne (not_lt.1 hge) (Ne.symm hne)
              · exact hfirst member hmember

/-! ### Merging -/

theorem lookup_eq_none {key : Text} {members : Members} (h : ∀ member ∈ members, member.1 ≠ key) :
    lookup key members = none := by
  induction members with
  | nil => rfl
  | cons first more ih =>
      rw [lookup, if_neg (h first (List.mem_cons_self ..))]
      exact ih fun member hmember => h member (List.mem_cons_of_mem first hmember)

/-- **The members of the second object hide those of the first.** -/
theorem lookup_merge {more : Members} (h : Ordered more) (key : Text) (members : Members) :
    lookup key (merge members more) = (lookup key more).or (lookup key members) := by
  induction more generalizing members with
  | nil => rfl
  | cons first more ih =>
      obtain ⟨k, v⟩ := first
      obtain ⟨hfirst, hmore⟩ := List.pairwise_cons.1 h
      rw [merge_cons, ih hmore, lookup_insert, lookup]
      by_cases hkey : k = key
      · subst hkey
        have hnone : lookup k more = none :=
          lookup_eq_none fun member hmember => (hfirst member hmember).ne'
        rw [hnone, if_pos rfl, if_pos rfl]
        rfl
      · rw [if_neg hkey, if_neg hkey]

/-- Merging into no members changes nothing that is looked up. -/
theorem lookup_merge_nil {more : Members} (h : Ordered more) (key : Text) :
    lookup key (merge [] more) = lookup key more := by
  rw [lookup_merge h, lookup, Option.or_none]

end Members

/-! ### Documents -/

section Readers

variable {value : Text → Except Stop (Value × Text)} {s rest : Text}

theorem ordered_readMembers {fuel : Nat} {members result : Members} (hmembers : members.Ordered)
    (h : readMembers value fuel members s = .ok (result, rest)) : result.Ordered := by
  induction fuel generalizing members s with
  | zero => cases h
  | succ fuel ih =>
      rw [readMembers] at h
      split at h
      · cases h
      · next key item after _ =>
          have hadded := hmembers.insert key item
          dsimp only at h
          split at h
          · cases h
          · cases h
            exact hadded
          · split at h
            · cases h
            · exact ih hadded h
            · cases h
            · cases h
          · cases h

theorem ordered_readObject {result : Value} (h : readObject value s = .ok (result, rest)) :
    result.members.Ordered := by
  rw [readObject] at h
  split at h
  · cases h
  · cases h
    exact .nil
  · split at h
    · cases h
    · next members after hread =>
        cases h
        exact ordered_readMembers .nil hread
  · cases h

theorem members_readArray {result : Value} (h : readArray value s = .ok (result, rest)) :
    result.members = [] := by
  rw [readArray] at h
  split at h
  · cases h
  · cases h
    rfl
  · split at h
    · cases h
    · cases h
      rfl

end Readers

theorem eq_of_readKeyword {value result : Value} {word s rest : Text}
    (h : readKeyword value word s = .ok (result, rest)) : result = value := by
  induction word generalizing s with
  | nil =>
      cases h
      rfl
  | cons c word ih =>
      cases s with
      | nil => cases h
      | cons d s =>
          rw [readKeyword] at h
          split at h
          · exact ih h
          · cases h

theorem members_readNumeric {negative : Bool} {s rest : Text} {result : Value}
    (h : readNumeric negative s = .ok (result, rest)) : result.members = [] := by
  rw [readNumeric] at h
  split at h
  · cases h
  · cases h
    rfl

/-- The members of a value are in order when it has been read. -/
theorem ordered_readValue {depth : Nat} {s rest : Text} {value : Value}
    (h : readValue depth s = .ok (value, rest)) : value.members.Ordered := by
  have hnone : value.members = [] → value.members.Ordered := by
    intro hnil
    rw [hnil]
    exact .nil
  unfold readValue at h
  split at h
  · cases h
  · exact hnone (by rw [eq_of_readKeyword h]; rfl)
  · exact hnone (by rw [eq_of_readKeyword h]; rfl)
  · exact hnone (by rw [eq_of_readKeyword h]; rfl)
  · exact hnone (members_readNumeric h)
  · split at h
    · cases h
    · cases h
      exact .nil
  · split at h
    · cases h
    · exact hnone (members_readArray h)
  · split at h
    · cases h
    · exact ordered_readObject h
  · split at h
    · exact hnone (members_readNumeric h)
    · cases h

/-- **The members of a document are in order.** -/
theorem ordered_parse {s : Text} {value : Value} (h : parse s = .ok value) :
    value.members.Ordered := by
  rw [parse] at h
  split at h
  · cases h
  · next value' rest hread =>
      split at h
      · cases h
        exact ordered_readValue hread
      · cases h

end SafeTemplate.Json
