/-
**Markup with single spaces.**

Most markup in templates is written plainly: text, end tags, and start tags whose attributes are each
behind one space, with a value in quotes or none.  This language is regular.  Here it is given twice,
by what it is made of and by an automaton that goes over a text character by character, and the two
are brought together.  The places of the automaton remember the name of the tag and the attribute that
is not finished, and forget the attributes before it.

Main definitions:

* `Markup.Attribute`, `Markup.Item`, `Markup.Spaced` — what the markup is made of;
* `Markup.Place`, `Markup.Place.next?`, `Markup.Place.follow?` — the automaton;
* `Markup.Place.Unfinished` — what comes at a place after the last finished item.

Main results:

* `Markup.Place.step_of_next?`, `Markup.Place.Step.next?_eq` — the steps of the automaton;
* `Markup.Place.exists_unfinished` — what a text has gone through when it comes to a place;
* `Markup.Place.follow?_eq_outside_iff` — **the automaton knows exactly the markup with single
  spaces**;
* `Markup.Place.follow?_position` — the automaton refines the tokenizer.
-/

import SafeTemplate.Proofs.Position

set_option autoImplicit false

namespace SafeTemplate

namespace Markup

/-! ### Names -/

/-- A name: one character of its kind, or more. -/
structure Name (p : Char → Bool) where
  text : Text
  nonempty : text ≠ []
  plain : ∀ c ∈ text, p c = true

abbrev TagName := Name isNameChar

abbrev AttributeName := Name isAttributeChar

namespace Name

variable {p : Char → Bool}

/-- The name of one character. -/
def single (c : Char) (h : p c = true) : Name p where
  text := [c]
  nonempty := List.cons_ne_nil _ _
  plain := by simpa using h

/-- A name that goes on for some characters. -/
def append (name : Name p) (s : Text) (h : ∀ c ∈ s, p c = true) : Name p where
  text := name.text ++ s
  nonempty := List.append_ne_nil_of_left_ne_nil name.nonempty s
  plain := by
    intro c hc
    rcases List.mem_append.1 hc with hc | hc
    · exact name.plain c hc
    · exact h c hc

/-- A name that goes on for one character. -/
def push (name : Name p) (c : Char) (h : p c = true) : Name p :=
  name.append [c] (by simpa using h)

theorem ext {name name' : Name p} (h : name.text = name'.text) : name = name' := by
  cases name
  cases name'
  simpa using h

theorem not_mem (name : Name p) {c : Char} (hc : p c = false) : c ∉ name.text :=
  not_mem_run name.plain hc

/-- A name starts with a character of its kind. -/
theorem exists_single (name : Name p) :
    ∃ c s h hs, name = (single c h).append s hs := by
  obtain ⟨c, s, hcs⟩ := List.exists_cons_of_ne_nil name.nonempty
  have hplain := name.plain
  rw [hcs] at hplain
  exact ⟨c, s, hplain c (List.mem_cons_self ..), fun d hd => hplain d (List.mem_cons_of_mem c hd),
    ext hcs⟩

end Name

theorem TagName.isAttributeChar (name : TagName) : ∀ c ∈ name.text, isAttributeChar c = true :=
  fun c hc => isAttributeChar_of_isNameChar (name.plain c hc)

/-! ### What the markup is made of -/

/-- The text of a value.  It holds no quotes and no angle brackets. -/
structure Value where
  text : Text
  plain : ∀ c ∈ text, isDelimiter c = false

namespace Value

def empty : Value where
  text := []
  plain := by simp

/-- A value that goes on for one character. -/
def push (value : Value) (c : Char) (h : isDelimiter c = false) : Value where
  text := value.text ++ [c]
  plain := by
    intro d hd
    rcases List.mem_append.1 hd with hd | hd
    · exact value.plain d hd
    · rw [List.mem_singleton.1 hd]
      exact h

end Value

/-- An attribute of a tag. -/
inductive Attribute
  | bare (name : AttributeName)
  | quoted (name : AttributeName) (quote : Quote) (value : Value)

/-- How an attribute is written, with the space before it. -/
def Attribute.written : Attribute → Text
  | bare name => ' ' :: name.text
  | quoted name quote value => ' ' :: (name.text ++ '=' :: quote.val :: (value.text ++ [quote.val]))

/-- How some attributes are written, one after the other. -/
def Attribute.allWritten (attributes : List Attribute) : Text :=
  attributes.flatMap written

/-- A character of text, an end tag, or a start tag. -/
inductive Item
  | character (c : Char) (h : isDelimiter c = false)
  | endTag (name : TagName)
  | startTag (name : TagName) (attributes : List Attribute)

/-- How an item is written. -/
def Item.written : Item → Text
  | character c _ => [c]
  | endTag name => '<' :: '/' :: (name.text ++ ['>'])
  | startTag name attributes => '<' :: (name.text ++ (Attribute.allWritten attributes ++ ['>']))

/-- Markup with single spaces: some items, one after the other. -/
def Spaced (s : Text) : Prop :=
  ∃ items : List Item, items.flatMap Item.written = s

theorem Spaced.nil : Spaced [] := ⟨[], rfl⟩

theorem Spaced.append_item {s : Text} (h : Spaced s) (item : Item) : Spaced (s ++ item.written) := by
  obtain ⟨items, rfl⟩ := h
  exact ⟨items ++ [item], by simp⟩

/-! ### The automaton -/

/-- Where a text stands in markup with single spaces. -/
inductive Place
  /-- Outside of tags. -/
  | outside
  /-- Behind the `<` of a tag. -/
  | opened
  /-- Behind the `</` of an end tag. -/
  | openedEnd
  /-- In the name of an end tag. -/
  | endName (name : TagName)
  /-- In the name of a start tag. -/
  | startName (name : TagName)
  /-- Behind the space before an attribute. -/
  | space (name : TagName)
  /-- In the name of an attribute. -/
  | attributeName (name : TagName) (attr : AttributeName)
  /-- Behind the `=` of an attribute. -/
  | equals (name : TagName) (attr : AttributeName)
  /-- In a value in quotes. -/
  | value (name : TagName) (attr : AttributeName) (quote : Quote)
  /-- Behind a value in quotes. -/
  | valued (name : TagName)

namespace Place

/-- The place after one more character, if that may come. -/
def next? (place : Place) (c : Char) : Option Place :=
  match place with
  | outside => if c = '<' then some opened else if isDelimiter c then none else some outside
  | opened =>
      if h : isNameChar c = true then some (startName (.single c h))
      else if c = '/' then some openedEnd
      else none
  | openedEnd => if h : isNameChar c = true then some (endName (.single c h)) else none
  | endName name =>
      if h : isNameChar c = true then some (endName (name.push c h))
      else if c = '>' then some outside
      else none
  | startName name =>
      if h : isNameChar c = true then some (startName (name.push c h))
      else if c = ' ' then some (space name)
      else if c = '>' then some outside
      else none
  | space name =>
      if h : isAttributeChar c = true then some (attributeName name (.single c h)) else none
  | attributeName name attr =>
      if h : isAttributeChar c = true then some (attributeName name (attr.push c h))
      else if c = '=' then some (equals name attr)
      else if c = ' ' then some (space name)
      else if c = '>' then some outside
      else none
  | equals name attr => if h : isQuote c = true then some (value name attr ⟨c, h⟩) else none
  | value name attr quote =>
      if c = quote.val then some (valued name)
      else if isDelimiter c then none
      else some (value name attr quote)
  | valued name =>
      if c = ' ' then some (space name) else if c = '>' then some outside else none

/-- The place after a text, if all its characters may come. -/
def follow? (place : Place) : Text → Option Place
  | [] => some place
  | c :: s => (place.next? c).bind fun there => there.follow? s

/-- The steps of the automaton. -/
inductive Step : Place → Char → Place → Prop
  | character {c : Char} (h : isDelimiter c = false) : Step outside c outside
  | tag : Step outside '<' opened
  | endTag : Step opened '/' openedEnd
  | endFirst {c : Char} (h : isNameChar c = true) : Step openedEnd c (endName (.single c h))
  | endMore {name : TagName} {c : Char} (h : isNameChar c = true) :
      Step (endName name) c (endName (name.push c h))
  | endClosed {name : TagName} : Step (endName name) '>' outside
  | startFirst {c : Char} (h : isNameChar c = true) : Step opened c (startName (.single c h))
  | startMore {name : TagName} {c : Char} (h : isNameChar c = true) :
      Step (startName name) c (startName (name.push c h))
  | startSpace {name : TagName} : Step (startName name) ' ' (space name)
  | startClosed {name : TagName} : Step (startName name) '>' outside
  | attributeFirst {name : TagName} {c : Char} (h : isAttributeChar c = true) :
      Step (space name) c (attributeName name (.single c h))
  | attributeMore {name : TagName} {attr : AttributeName} {c : Char}
      (h : isAttributeChar c = true) :
      Step (attributeName name attr) c (attributeName name (attr.push c h))
  | attributeSpace {name : TagName} {attr : AttributeName} :
      Step (attributeName name attr) ' ' (space name)
  | attributeClosed {name : TagName} {attr : AttributeName} :
      Step (attributeName name attr) '>' outside
  | attributeEquals {name : TagName} {attr : AttributeName} :
      Step (attributeName name attr) '=' (equals name attr)
  | valueOpened {name : TagName} {attr : AttributeName} (quote : Quote) :
      Step (equals name attr) quote.val (value name attr quote)
  | valueMore {name : TagName} {attr : AttributeName} {quote : Quote} {c : Char}
      (h : isDelimiter c = false) : Step (value name attr quote) c (value name attr quote)
  | valueClosed {name : TagName} {attr : AttributeName} {quote : Quote} :
      Step (value name attr quote) quote.val (valued name)
  | valuedSpace {name : TagName} : Step (valued name) ' ' (space name)
  | valuedClosed {name : TagName} : Step (valued name) '>' outside

theorem step_of_next? {place place' : Place} {c : Char} (h : place.next? c = some place') :
    place.Step c place' := by
  cases place with
  | outside =>
      rw [next?] at h
      split_ifs at h with hlt hplain <;> cases h
      · exact hlt ▸ .tag
      · exact .character (by simpa using hplain)
  | opened =>
      rw [next?] at h
      split_ifs at h with hname hslash <;> cases h
      · exact .startFirst hname
      · exact hslash ▸ .endTag
  | openedEnd =>
      rw [next?] at h
      split_ifs at h with hname
      cases h
      exact .endFirst hname
  | endName name =>
      rw [next?] at h
      split_ifs at h with hname hgt <;> cases h
      · exact .endMore hname
      · exact hgt ▸ .endClosed
  | startName name =>
      rw [next?] at h
      split_ifs at h with hname hspace hgt <;> cases h
      · exact .startMore hname
      · exact hspace ▸ .startSpace
      · exact hgt ▸ .startClosed
  | space name =>
      rw [next?] at h
      split_ifs at h with hname
      cases h
      exact .attributeFirst hname
  | attributeName name attr =>
      rw [next?] at h
      split_ifs at h with hname hequals hspace hgt <;> cases h
      · exact .attributeMore hname
      · exact hequals ▸ .attributeEquals
      · exact hspace ▸ .attributeSpace
      · exact hgt ▸ .attributeClosed
  | equals name attr =>
      rw [next?] at h
      split_ifs at h with hquote
      cases h
      exact .valueOpened ⟨c, hquote⟩
  | value name attr quote =>
      rw [next?] at h
      split_ifs at h with hquote hplain <;> cases h
      · exact hquote ▸ .valueClosed
      · exact .valueMore (by simpa using hplain)
  | valued name =>
      rw [next?] at h
      split_ifs at h with hspace hgt <;> cases h
      · exact hspace ▸ .valuedSpace
      · exact hgt ▸ .valuedClosed

theorem Step.next?_eq {place place' : Place} {c : Char} (h : place.Step c place') :
    place.next? c = some place' := by
  cases h with
  | character h =>
      have hlt : c ≠ '<' := ne_of_not_isDelimiter h rfl
      simp [next?, hlt, h]
  | @valueMore name attr quote c h =>
      have hquote : c ≠ quote.val :=
        ne_of_not_isDelimiter h (isDelimiter_of_isQuote quote.property)
      simp [next?, h, hquote]
  | valueOpened quote => simp [next?, quote.property]
  | valueClosed => simp [next?]
  | endFirst h => simp [next?, h]
  | endMore h => simp [next?, h]
  | startFirst h => simp [next?, h]
  | startMore h => simp [next?, h]
  | attributeFirst h => simp [next?, h]
  | attributeMore h => simp [next?, h]
  | _ => rfl

theorem follow?_of_step {place place' : Place} {c : Char} (h : place.Step c place') (s : Text) :
    place.follow? (c :: s) = place'.follow? s := by
  rw [follow?, h.next?_eq]
  rfl

/-- What a text that can be followed starts with. -/
theorem exists_step_of_follow? {place there : Place} {c : Char} {s : Text}
    (h : place.follow? (c :: s) = some there) :
    ∃ place', place.Step c place' ∧ place'.follow? s = some there := by
  rw [follow?] at h
  obtain ⟨place', hnext, hrest⟩ := Option.bind_eq_some_iff.1 h
  exact ⟨place', step_of_next? hnext, hrest⟩

theorem follow?_append (place : Place) (s t : Text) :
    place.follow? (s ++ t) = (place.follow? s).bind fun there => there.follow? t := by
  induction s generalizing place with
  | nil => rfl
  | cons c s ih =>
      rw [List.cons_append, follow?, follow?]
      cases place.next? c with
      | none => rfl
      | some place' => exact ih place'

theorem exists_follow?_of_append {place there : Place} {s t : Text}
    (h : place.follow? (s ++ t) = some there) :
    ∃ middle, place.follow? s = some middle ∧ middle.follow? t = some there := by
  rw [follow?_append] at h
  exact Option.bind_eq_some_iff.1 h

/-! ### What a text has gone through -/

/-- What comes at a place after the last finished item. -/
def Unfinished : Place → Text → Prop
  | outside, s => s = []
  | opened, s => s = ['<']
  | openedEnd, s => s = ['<', '/']
  | endName name, s => s = '<' :: '/' :: name.text
  | startName name, s => s = '<' :: name.text
  | space name, s =>
      ∃ attributes, s = '<' :: (name.text ++ (Attribute.allWritten attributes ++ [' ']))
  | attributeName name attr, s =>
      ∃ attributes, s = '<' :: (name.text ++ (Attribute.allWritten attributes ++ ' ' :: attr.text))
  | equals name attr, s =>
      ∃ attributes,
        s = '<' :: (name.text ++ (Attribute.allWritten attributes ++ ' ' :: (attr.text ++ ['='])))
  | value name attr quote, s =>
      ∃ attributes, ∃ value : Value,
        s = '<' :: (name.text ++ (Attribute.allWritten attributes ++
          ' ' :: (attr.text ++ '=' :: quote.val :: value.text)))
  | valued name, s =>
      ∃ attributes attr quote value,
        s = '<' :: (name.text ++ Attribute.allWritten (attributes ++ [.quoted attr quote value]))

/-- A step that stays inside a tag adds to what is not finished. -/
theorem Step.unfinished {place place' : Place} {c : Char} (h : place.Step c place')
    (hinside : place' ≠ outside) {s : Text} (hs : place.Unfinished s) :
    place'.Unfinished (s ++ [c]) := by
  cases h with
  | character h => exact absurd rfl hinside
  | tag =>
      obtain rfl := hs
      rfl
  | endTag =>
      obtain rfl := hs
      rfl
  | endFirst h =>
      obtain rfl := hs
      rfl
  | endMore h =>
      obtain rfl := hs
      rfl
  | endClosed => exact absurd rfl hinside
  | startFirst h =>
      obtain rfl := hs
      rfl
  | startMore h =>
      obtain rfl := hs
      rfl
  | startSpace =>
      obtain rfl := hs
      exact ⟨[], by simp [Attribute.allWritten]⟩
  | startClosed => exact absurd rfl hinside
  | attributeFirst h =>
      obtain ⟨attributes, rfl⟩ := hs
      exact ⟨attributes, by simp [Name.single]⟩
  | attributeMore h =>
      obtain ⟨attributes, rfl⟩ := hs
      exact ⟨attributes, by simp [Name.push, Name.append]⟩
  | @attributeSpace name attr =>
      obtain ⟨attributes, rfl⟩ := hs
      exact ⟨attributes ++ [.bare attr], by simp [Attribute.allWritten, Attribute.written]⟩
  | attributeClosed => exact absurd rfl hinside
  | attributeEquals =>
      obtain ⟨attributes, rfl⟩ := hs
      exact ⟨attributes, by simp⟩
  | valueOpened quote =>
      obtain ⟨attributes, rfl⟩ := hs
      exact ⟨attributes, .empty, by simp [Value.empty]⟩
  | valueMore h =>
      obtain ⟨attributes, value, rfl⟩ := hs
      exact ⟨attributes, value.push c h, by simp [Value.push]⟩
  | @valueClosed name attr quote =>
      obtain ⟨attributes, value, rfl⟩ := hs
      exact ⟨attributes, attr, quote, value, by simp [Attribute.allWritten, Attribute.written]⟩
  | @valuedSpace name =>
      obtain ⟨attributes, attr, quote, value, rfl⟩ := hs
      exact ⟨attributes ++ [.quoted attr quote value], by simp⟩
  | valuedClosed => exact absurd rfl hinside

/-- A step that ends outside of tags finishes an item. -/
theorem Step.finished {place : Place} {c : Char} (h : place.Step c outside) {s : Text}
    (hs : place.Unfinished s) : ∃ item : Item, item.written = s ++ [c] := by
  cases h with
  | character h =>
      obtain rfl := hs
      exact ⟨.character c h, rfl⟩
  | @endClosed name =>
      obtain rfl := hs
      exact ⟨.endTag name, by simp [Item.written]⟩
  | @startClosed name =>
      obtain rfl := hs
      exact ⟨.startTag name [], by simp [Item.written, Attribute.allWritten]⟩
  | @attributeClosed name attr =>
      obtain ⟨attributes, rfl⟩ := hs
      exact ⟨.startTag name (attributes ++ [.bare attr]),
        by simp [Item.written, Attribute.allWritten, Attribute.written]⟩
  | @valuedClosed name =>
      obtain ⟨attributes, attr, quote, value, rfl⟩ := hs
      exact ⟨.startTag name (attributes ++ [.quoted attr quote value]), by simp [Item.written]⟩

/-- **A text comes to a place over finished items and what is unfinished there.** -/
theorem exists_unfinished {s : Text} {place : Place} (h : outside.follow? s = some place) :
    ∃ before unfinished, Spaced before ∧ place.Unfinished unfinished ∧ s = before ++ unfinished := by
  induction s using List.reverseRecOn generalizing place with
  | nil =>
      obtain rfl := Option.some.inj h
      exact ⟨[], [], Spaced.nil, rfl, rfl⟩
  | append_singleton s c ih =>
      obtain ⟨middle, hmiddle, hlast⟩ := exists_follow?_of_append h
      obtain ⟨place', hstep, hend⟩ := exists_step_of_follow? hlast
      obtain rfl := Option.some.inj hend
      obtain ⟨before, unfinished, hbefore, hunfinished, rfl⟩ := ih hmiddle
      by_cases hplace : place' = outside
      · subst hplace
        obtain ⟨item, hitem⟩ := hstep.finished hunfinished
        refine ⟨before ++ item.written, [], hbefore.append_item item, rfl, ?_⟩
        rw [hitem, List.append_nil, List.append_assoc]
      · exact ⟨before, unfinished ++ [c], hbefore, hstep.unfinished hplace hunfinished,
          List.append_assoc ..⟩

/-! ### Following the markup -/

section Names

variable {p : Char → Bool} {f : Name p → Place}

theorem follow?_more (hmore : ∀ name c h, (f name).Step c (f (name.push c h))) (name : Name p)
    {s : Text} (hs : ∀ c ∈ s, p c = true) (rest : Text) :
    (f name).follow? (s ++ rest) = (f (name.append s hs)).follow? rest := by
  induction s generalizing name with
  | nil =>
      have hname : name.append [] hs = name := Name.ext (List.append_nil _)
      rw [hname]
      rfl
  | cons c s ih =>
      have hc := hs c (List.mem_cons_self ..)
      have hrest : ∀ d ∈ s, p d = true := fun d hd => hs d (List.mem_cons_of_mem c hd)
      have hname : (name.push c hc).append s hrest = name.append (c :: s) hs :=
        Name.ext (List.append_assoc ..)
      rw [List.cons_append, follow?_of_step (hmore name c hc), ih (name.push c hc) hrest, hname]

/-- A name is followed from its first character to its last. -/
theorem follow?_name {place : Place} (hfirst : ∀ c h, place.Step c (f (.single c h)))
    (hmore : ∀ name c h, (f name).Step c (f (name.push c h))) (name : Name p) (rest : Text) :
    place.follow? (name.text ++ rest) = (f name).follow? rest := by
  obtain ⟨c, s, h, hs, rfl⟩ := name.exists_single
  rw [← follow?_more hmore]
  exact follow?_of_step (hfirst c h) (s ++ rest)

end Names

theorem follow?_value (name : TagName) (attr : AttributeName) (quote : Quote) {s : Text}
    (hs : ∀ c ∈ s, isDelimiter c = false) (rest : Text) :
    (value name attr quote).follow? (s ++ rest) = (value name attr quote).follow? rest := by
  induction s with
  | nil => rfl
  | cons c s ih =>
      rw [List.cons_append, follow?_of_step (.valueMore (hs c (List.mem_cons_self ..)))]
      exact ih fun d hd => hs d (List.mem_cons_of_mem c hd)

/-- The places where a start tag may end, or go on with another attribute. -/
inductive MayEnd (name : TagName) : Place → Prop
  | startName : MayEnd name (startName name)
  | attributeName (attr : AttributeName) : MayEnd name (attributeName name attr)
  | valued : MayEnd name (valued name)

theorem MayEnd.space {name : TagName} {place : Place} (h : MayEnd name place) :
    place.Step ' ' (space name) := by
  cases h with
  | startName => exact .startSpace
  | attributeName attr => exact .attributeSpace
  | valued => exact .valuedSpace

theorem MayEnd.closed {name : TagName} {place : Place} (h : MayEnd name place) :
    place.Step '>' outside := by
  cases h with
  | startName => exact .startClosed
  | attributeName attr => exact .attributeClosed
  | valued => exact .valuedClosed

theorem MayEnd.follow?_attribute {name : TagName} {place : Place} (h : MayEnd name place)
    (added : Attribute) :
    ∃ place', MayEnd name place' ∧
      ∀ rest, place.follow? (added.written ++ rest) = place'.follow? rest := by
  have hname : ∀ (attr : AttributeName) (rest : Text),
      place.follow? (' ' :: (attr.text ++ rest)) = (Place.attributeName name attr).follow? rest := by
    intro attr rest
    rw [follow?_of_step h.space]
    exact follow?_name (fun c h => .attributeFirst h) (fun _ c h => .attributeMore h) attr rest
  cases added with
  | bare attr => exact ⟨_, .attributeName attr, hname attr⟩
  | quoted attr quote value =>
      refine ⟨_, .valued, ?_⟩
      intro rest
      have hwritten : (Attribute.quoted attr quote value).written ++ rest =
          ' ' :: (attr.text ++ ('=' :: quote.val :: (value.text ++ quote.val :: rest))) := by
        simp [Attribute.written]
      rw [hwritten, hname, follow?_of_step .attributeEquals, follow?_of_step (.valueOpened quote),
        follow?_value name attr quote value.plain, follow?_of_step .valueClosed]

theorem MayEnd.follow?_attributes {name : TagName} {place : Place} (h : MayEnd name place)
    (attributes : List Attribute) :
    ∃ place', MayEnd name place' ∧
      ∀ rest, place.follow? (Attribute.allWritten attributes ++ rest) = place'.follow? rest := by
  induction attributes generalizing place with
  | nil => exact ⟨place, h, fun rest => rfl⟩
  | cons added attributes ih =>
      obtain ⟨middle, hmiddle, hfirst⟩ := h.follow?_attribute added
      obtain ⟨place', hplace', hmore⟩ := ih hmiddle
      refine ⟨place', hplace', ?_⟩
      intro rest
      have hwritten : Attribute.allWritten (added :: attributes) ++ rest =
          added.written ++ (Attribute.allWritten attributes ++ rest) :=
        List.append_assoc ..
      rw [hwritten, hfirst, hmore]

/-- An item leads back to where it starts. -/
theorem follow?_item (item : Item) (rest : Text) :
    outside.follow? (item.written ++ rest) = outside.follow? rest := by
  cases item with
  | character c h => exact follow?_of_step (.character h) rest
  | endTag name =>
      have hwritten : (Item.endTag name).written ++ rest =
          '<' :: '/' :: (name.text ++ '>' :: rest) := by
        simp [Item.written]
      rw [hwritten, follow?_of_step .tag, follow?_of_step .endTag,
        follow?_name (fun c h => .endFirst h) (fun _ c h => .endMore h) name,
        follow?_of_step .endClosed]
  | startTag name attributes =>
      obtain ⟨place, hplace, hattributes⟩ :=
        (MayEnd.startName : MayEnd name (startName name)).follow?_attributes attributes
      have hwritten : (Item.startTag name attributes).written ++ rest =
          '<' :: (name.text ++ (Attribute.allWritten attributes ++ '>' :: rest)) := by
        simp [Item.written]
      rw [hwritten, follow?_of_step .tag,
        follow?_name (fun c h => .startFirst h) (fun _ c h => .startMore h) name, hattributes,
        follow?_of_step hplace.closed]

/-- **The automaton knows exactly the markup with single spaces.** -/
theorem follow?_eq_outside_iff {s : Text} : outside.follow? s = some outside ↔ Spaced s := by
  constructor
  · intro h
    obtain ⟨before, unfinished, hbefore, rfl, rfl⟩ := exists_unfinished h
    rw [List.append_nil]
    exact hbefore
  · rintro ⟨items, rfl⟩
    induction items with
    | nil => rfl
    | cons item items ih => exact (follow?_item item _).trans ih

/-- The automaton can follow every start of markup with single spaces. -/
theorem exists_follow?_of_prefix {s p : Text} (h : Spaced s) (hp : p <+: s) :
    ∃ place, outside.follow? p = some place := by
  obtain ⟨t, rfl⟩ := hp
  obtain ⟨place, hplace, -⟩ := exists_follow?_of_append (follow?_eq_outside_iff.2 h)
  exact ⟨place, hplace⟩

/-! ### The tokenizer -/

/-- Where a place is for the tokenizer. -/
def position : Place → Position
  | outside => .text
  | equals _ _ => .afterEquals
  | value _ _ quote => .value quote
  | _ => .tag

theorem position_of_isAttributeChar {c : Char} (h : isAttributeChar c = true) :
    Position.tag.expects c = true ∧ Position.tag.next c = .tag := by
  have hdelimiter := not_isDelimiter_of_isAttributeChar h
  have hgt : c ≠ '>' := ne_of_kind h rfl
  have hequals : c ≠ '=' := ne_of_kind h rfl
  exact ⟨Position.expects_of_not_isDelimiter .tag hdelimiter,
    by rw [Position.next, if_neg hgt, if_neg hequals]⟩

/-- The tokenizer takes the steps of the automaton, and expects them. -/
theorem Step.position {place place' : Place} {c : Char} (h : place.Step c place') :
    place.position.expects c = true ∧ place.position.next c = place'.position := by
  cases h with
  | character h =>
      have hlt : c ≠ '<' := ne_of_not_isDelimiter h rfl
      exact ⟨Position.expects_of_not_isDelimiter .text h, if_neg hlt⟩
  | endFirst h => exact position_of_isAttributeChar (isAttributeChar_of_isNameChar h)
  | endMore h => exact position_of_isAttributeChar (isAttributeChar_of_isNameChar h)
  | startFirst h => exact position_of_isAttributeChar (isAttributeChar_of_isNameChar h)
  | startMore h => exact position_of_isAttributeChar (isAttributeChar_of_isNameChar h)
  | attributeFirst h => exact position_of_isAttributeChar h
  | attributeMore h => exact position_of_isAttributeChar h
  | valueOpened quote =>
      have hlt : quote.val ≠ '<' := ne_of_kind quote.property rfl
      simp [Place.position, Position.expects, Position.next, hlt, quote.property]
  | @valueMore name attr quote c h =>
      have hquote : c ≠ quote.val :=
        ne_of_not_isDelimiter h (isDelimiter_of_isQuote quote.property)
      exact ⟨Position.expects_of_not_isDelimiter _ h, if_neg hquote⟩
  | valueClosed => simp [Place.position, Position.expects, Position.next]
  | _ => exact ⟨rfl, rfl⟩

/-- **The automaton refines the tokenizer.** -/
theorem follow?_position {place there : Place} {s : Text} (h : place.follow? s = some there) :
    place.position.follow? s = some there.position := by
  induction s generalizing place with
  | nil =>
      obtain rfl := Option.some.inj h
      rfl
  | cons c s ih =>
      obtain ⟨place', hstep, hrest⟩ := exists_step_of_follow? h
      obtain ⟨hexpects, hnext⟩ := hstep.position
      rw [Position.follow?_cons, if_pos hexpects, hnext, ih hrest]

end Place

end Markup

end SafeTemplate
