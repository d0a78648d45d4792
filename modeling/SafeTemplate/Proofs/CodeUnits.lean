/-
**The code units of a text.**

A query counts a text, and finds its way in it, by UTF-16 code units.  The length is the number of the
units, and every position below it holds one of them.  Each unit is read by itself, so the two halves
of a wide character are never put together again: whoever goes over a text position by position gets
two replacement characters for each wide one, and every other character as it is.

Main definitions: `Text.isWide`, `Text.splitWide`.

Main results:

* `Text.map_ofUnit_units` — what the units of a text read as, one by one;
* `Query.parse_flatten` — the tokens of a query need nothing between them;
* `Project.evaluate_position` — the value at a position of a text;
* `Project.evaluate_codeUnits` — **texts are counted and read by code units**.
-/

import SafeTemplate.Proofs.QueryGrammar
import SafeTemplate.Project.Expansion

set_option autoImplicit false

namespace SafeTemplate

namespace Text

/-! ### Units, one by one -/

/-- The characters that take two code units. -/
def isWide (c : Char) : Bool :=
  0xFFFF < c.toNat

/-- The text with two replacement characters in the place of each wide character. -/
def splitWide (s : Text) : Text :=
  s.flatMap fun c => if isWide c then [replacement, replacement] else [c]

theorem splitWide_cons (c : Char) (s : Text) :
    splitWide (c :: s) =
      (if isWide c then [replacement, replacement] else [c]) ++ splitWide s :=
  List.flatMap_cons

/-- Each half of a wide character reads as the replacement character. -/
theorem map_ofUnit_of_wide {c : Char} (h : isWide c = true) :
    (unitsOf c).map ofUnit = [replacement, replacement] := by
  have hcode := toNat_cases c
  have hwide : 0xFFFF < c.toNat := by simpa [isWide] using h
  have hlead : 0xD800 ≤ 0xD800 + (c.toNat - 0x10000) / 0x400 ∧
      0xD800 + (c.toNat - 0x10000) / 0x400 ≤ 0xDFFF := by omega
  have htrail : 0xD800 ≤ 0xDC00 + (c.toNat - 0x10000) % 0x400 ∧
      0xDC00 + (c.toNat - 0x10000) % 0x400 ≤ 0xDFFF := by omega
  rw [unitsOf, if_neg (by omega), List.map_cons, List.map_singleton, ofUnit, if_pos hlead, ofUnit,
    if_pos htrail]

/-- **What the units of a text read as, one by one.** -/
theorem map_ofUnit_units (s : Text) : (units s).map ofUnit = splitWide s := by
  induction s with
  | nil => rfl
  | cons c s ih =>
      rw [units_cons, List.map_append, ih, splitWide_cons]
      cases hwide : isWide c with
      | true => rw [map_ofUnit_of_wide hwide, if_pos rfl]
      | false =>
          have hle : ¬0xFFFF < c.toNat := by simpa [isWide] using hwide
          rw [ofUnit_of_lt (by omega), if_neg (by simp)]

end Text

namespace Query

/-! ### Queries without blanks -/

theorem isBlank_nil : IsBlank [] :=
  fun _ hc => absurd hc List.not_mem_nil

theorem spaced_flatten (tokens : List Text) : Spaced tokens tokens.flatten := by
  induction tokens with
  | nil => exact .nil
  | cons token tokens ih => exact .cons isBlank_nil token ih

/-- **The tokens of a query need nothing between them.** -/
theorem parse_flatten {query : Query} {tokens : List Text} (h : Written .free query tokens) :
    parse tokens.flatten = .ok query :=
  parse_eq_ok_iff.2
    ⟨tokens, h, tokens.flatten, [], (List.append_nil _).symm, spaced_flatten tokens, isBlank_nil⟩

section Paths

variable {name : Text} (hname : IsName name) (hkeyword : name ∉ keywords)

include hname hkeyword

/-- A path of one step that is a name. -/
theorem parse_member {key : Text} (hkey : IsName key) :
    parse (name ++ '.' :: key) = .ok (.path name [.key key]) := by
  have hwritten : Written .free (.path name [.key key]) [name, ['.'], key] :=
    .path hname hkeyword [(.key key, [['.'], key])] (List.forall_mem_singleton.2 (.name hkey))
  have hparse := parse_flatten hwritten
  simpa using hparse

/-- A path of one step that is a position. -/
theorem parse_position {position : Nat} (hposition : position < Json.wordLimit) :
    parse (name ++ '[' :: (Decimal.numeral position ++ [']'])) =
      .ok (.path name [.index position]) := by
  have hvalue := Decimal.value_numeral position
  have hstep : StepTokens .free (.index position) [['['], Decimal.numeral position, [']']] := by
    have htokens := @StepTokens.index .free (Decimal.numeral position) Nat.toDigits_ne_nil
      (fun c hc => Decimal.isDigit_of_mem_numeral hc) (by rwa [hvalue])
    rwa [hvalue] at htokens
  have hwritten : Written .free (.path name [.index position])
      [name, ['['], Decimal.numeral position, [']']] :=
    .path hname hkeyword [(.index position, [['['], Decimal.numeral position, [']']])]
      (List.forall_mem_singleton.2 hstep)
  have hparse := parse_flatten hwritten
  simpa using hparse

end Paths

/-- Queries are evaluated one after the other. -/
theorem evaluateAll_map {α : Type} {data : Json.Members}
    {call : Text → List Json.Value → Project.Attempt Json.Value} {query : α → Query}
    {value : α → Json.Value} {items : List α}
    (h : ∀ item ∈ items, evaluate data call (query item) = some (.ok (value item))) :
    evaluateAll data call (items.map query) = some (.ok (items.map value)) := by
  induction items with
  | nil => rfl
  | cons item items ih =>
      obtain ⟨hitem, hmore⟩ := List.forall_mem_cons.1 h
      rw [List.map_cons, evaluateAll, hitem, ih hmore]
      rfl

end Query

namespace Project

section Units

variable (project : Project) (disk : Disk) (levels : Nat) {name s : Text}
  (hdata : Json.Members.lookup name project.data = some (.string s))

include hdata

theorem evaluate_length :
    project.evaluate disk levels (.path name [.key lengthKey]) =
      some (.ok (.ofNat (Text.units s).length)) := by
  rw [evaluate, Query.evaluate, hdata]
  rfl

/-- **The value at a position of a text**: the unit there, or nothing. -/
theorem evaluate_position (i : Nat) :
    project.evaluate disk levels (.path name [.index i]) =
      some (.ok (((Text.units s)[i]?.map fun unit => .string [Text.ofUnit unit]).getD .null)) := by
  have hvalue : Step.applyAll [.index i] (.string s) =
      .ok (((Text.units s)[i]?.map fun unit => .string [Text.ofUnit unit]).getD .null) := by
    cases hunit : (Text.units s)[i]? <;> simp [Step.applyAll, Step.apply, hunit]
  rw [evaluate, Query.evaluate, hdata]
  exact congrArg some hvalue

end Units

/-- **Texts are counted and read by code units.**  The length of a text is the number of its units; a
position holds nothing exactly if it is no less than that; and what the positions below it hold, one
after the other, is the text with two replacement characters for each wide one. -/
theorem evaluate_codeUnits (project : Project) (disk : Disk) (levels : Nat) {name s : Text}
    (hname : Query.IsName name) (hkeyword : name ∉ Query.keywords)
    (hdata : Json.Members.lookup name project.data = some (.string s)) :
    valueOf (project.evaluate disk levels) (name ++ ".length".toList) =
        some (.ok (.ofNat (Text.units s).length)) ∧
      (∀ i < Json.wordLimit,
        valueOf (project.evaluate disk levels) (name ++ '[' :: (Decimal.numeral i ++ [']'])) =
          project.evaluate disk levels (.path name [.index i])) ∧
      (∀ i, project.evaluate disk levels (.path name [.index i]) = some (.ok .null) ↔
        (Text.units s).length ≤ i) ∧
      ∃ values,
        Query.evaluateAll project.data (project.callHelper disk levels)
            ((List.range (Text.units s).length).map fun i => .path name [.index i]) =
          some (.ok values) ∧
          (values.map Json.Value.plain).flatten = Text.splitWide s := by
  refine ⟨?_, ?_, ?_, ?_⟩
  · have hlength : Query.IsName lengthKey := ⟨⟨'l', rfl, rfl⟩, List.all_eq_true.1 rfl⟩
    have hparse := Query.parse_member hname hkeyword hlength
    have hsource : name ++ ".length".toList = name ++ '.' :: lengthKey := rfl
    rw [hsource, valueOf, hparse]
    exact project.evaluate_length disk levels hdata
  · intro i hi
    rw [valueOf, Query.parse_position hname hkeyword hi]
  · intro i
    rw [project.evaluate_position disk levels hdata, Option.some_inj, Except.ok.injEq,
      ← List.getElem?_eq_none_iff]
    cases (Text.units s)[i]? <;> simp
  · refine ⟨_, Query.evaluateAll_map fun i _ => project.evaluate_position disk levels hdata i, ?_⟩
    have hvalues : ((List.range (Text.units s).length).map fun i =>
        ((Text.units s)[i]?.map fun unit => Json.Value.string [Text.ofUnit unit]).getD .null) =
          (Text.units s).map fun unit => .string [Text.ofUnit unit] := by
      refine List.ext_getElem (by simp) ?_
      intro i hleft hright
      rw [List.length_map] at hright
      simp [hright]
    have hplain : ((Text.units s).map fun unit => Json.Value.string [Text.ofUnit unit]).map
        Json.Value.plain = (Text.units s).map fun unit => [Text.ofUnit unit] := by
      simp [Json.Value.plain]
    rw [hvalues, hplain, ← Text.map_ofUnit_units]
    exact List.map_eq_flatMap.symm

/-- A text with a wide character between two others. -/
theorem evaluate_codeUnits_wide :
    let project : Project := ⟨[(['s'], .string "a😀b".toList)], ['.'], .coffeeScript⟩
    (Query.IsName ['s'] ∧ ['s'] ∉ Query.keywords ∧
        Json.Members.lookup ['s'] project.data = some (.string "a😀b".toList)) ∧
      valueOf (project.evaluate (.blank 0) 0) "s.length".toList = some (.ok (.ofNat 4)) ∧
      valueOf (project.evaluate (.blank 0) 0) "s[4]".toList = some (.ok .null) ∧
      ∃ values,
        Query.evaluateAll project.data (project.callHelper (.blank 0) 0)
            ((List.range 4).map fun i => .path ['s'] [.index i]) = some (.ok values) ∧
          (values.map Json.Value.plain).flatten = "a\uFFFD\uFFFDb".toList := by
  intro project
  have hname : Query.IsName ['s'] := ⟨⟨'s', rfl, rfl⟩, List.all_eq_true.1 rfl⟩
  have hkeyword : ['s'] ∉ Query.keywords := by decide
  have hdata : Json.Members.lookup ['s'] project.data = some (.string "a😀b".toList) := rfl
  obtain ⟨hlength, hsource, hnull, hvalues⟩ :=
    evaluate_codeUnits project (.blank 0) 0 hname hkeyword hdata
  refine ⟨⟨hname, hkeyword, hdata⟩, hlength, ?_, hvalues⟩
  exact (hsource 4 (by decide)).trans ((hnull 4).2 (by decide))

end Project

end SafeTemplate
