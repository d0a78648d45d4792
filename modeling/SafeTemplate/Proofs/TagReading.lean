/-
**The tags of a text.**

A reader of markup takes `<` or `</` and what follows up to a blank or `>` as the name of a tag, and
what follows up to `>` as its items, which blanks separate.  In an item a quote takes everything up to
the next one of its kind with it, blanks and `>` included.  The reader knows no more of markup than
that, so it finds tags in any text.

In a text that is accepted as a template by itself it finds what was meant: no tag is left open, and
within a tag the only blanks outside of quotes are spaces.

Main definitions:

* `Markup.Tag`, `Markup.Reading`, `Markup.Reading.next`, `Markup.Reading.finished` — the reader;
* `Markup.tags` — the tags of a text;
* `Markup.Reading.Began` — what is known of a tag before its end;
* `Markup.ClosedMarkup` — what a text without open markup is made of;
* `Markup.Reading.Tidy` — a text without open tags and without blanks other than spaces in tags.

Main results:

* `Markup.Reading.began_of_tagsFrom` — a tag is what has been read of it, and more;
* `Markup.closedMarkup_of_leftOpen` — a text that leaves nothing open is made of text, end tags and
  start tags;
* `Markup.tidy_of_leftOpen` — **a text that leaves nothing open has finished tags, with spaces
  only**.
-/

import SafeTemplate.Proofs.CutMarkup
import SafeTemplate.Proofs.QueryTokens
import SafeTemplate.Proofs.SpacedMarkup

set_option autoImplicit false

namespace SafeTemplate

namespace Markup

/-! ### The reader -/

/-- A tag as it is read: whether it ends something, its name, and its items. -/
structure Tag where
  closing : Bool
  name : Text
  items : List Text
  deriving DecidableEq, Repr

/-- A tag with one more item, if there is one. -/
def Tag.add (tag : Tag) (item : Text) : Tag :=
  if item = [] then tag else { tag with items := tag.items ++ [item] }

/-- What a reader has read of a tag. -/
inductive Reading
  /-- Outside of tags. -/
  | text
  /-- In the name of a tag. -/
  | name (closing : Bool) (name : Text)
  /-- Behind the name of a tag, in an item or before one. -/
  | item (tag : Tag) (item : Text)
  /-- In the part of an item that a quote has opened. -/
  | quoted (tag : Tag) (item : Text) (quote : Quote)
  deriving DecidableEq

namespace Reading

/-- What has been read after one more character. -/
def next (reading : Reading) (c : Char) : Reading :=
  match reading with
  | text => if c = '<' then name false [] else text
  | name closing s =>
      if c = '>' then text
      else if Text.isBlank c then item ⟨closing, s, []⟩ []
      else if c = '/' ∧ s = [] ∧ closing = false then name true []
      else name closing (s ++ [c])
  | item tag s =>
      if c = '>' then text
      else if Text.isBlank c then item (tag.add s) []
      else if h : isQuote c = true then quoted tag (s ++ [c]) ⟨c, h⟩
      else item tag (s ++ [c])
  | quoted tag s quote =>
      if c = quote.val then item tag (s ++ [c]) else quoted tag (s ++ [c]) quote

/-- The tag that a character finishes, if it finishes one. -/
def finished (reading : Reading) (c : Char) : List Tag :=
  match reading with
  | name closing s => if c = '>' then [⟨closing, s, []⟩] else []
  | item tag s => if c = '>' then [tag.add s] else []
  | _ => []

/-- What has been read after a text. -/
def run (reading : Reading) (s : Text) : Reading :=
  s.foldl next reading

/-- The tags that a text finishes. -/
def tagsFrom (reading : Reading) : Text → List Tag
  | [] => []
  | c :: s => reading.finished c ++ (reading.next c).tagsFrom s

/-- Whether a place is in a tag and outside of quotes. -/
def isOpen : Reading → Bool
  | name .. => true
  | item .. => true
  | _ => false

end Reading

/-- The tags of a text. -/
def tags (s : Text) : List Tag :=
  Reading.text.tagsFrom s

/-- The name of a tag may stand right before its end, and a value may hold anything but its quote. -/
example : tags "a <b c='<i> 1' d\n>x</b>".toList =
    [⟨false, ['b'], ["c='<i> 1'".toList, ['d']]⟩, ⟨true, ['b'], []⟩] := by decide

namespace Reading

/-! ### One character -/

theorem next_name {closing : Bool} {s : Text} {c : Char} (hgt : c ≠ '>')
    (hblank : Text.isBlank c = false) (hslash : c ≠ '/') :
    (name closing s).next c = name closing (s ++ [c]) := by
  simp [next, hgt, hblank, hslash]

theorem next_item {tag : Tag} {s : Text} {c : Char} (hgt : c ≠ '>')
    (hblank : Text.isBlank c = false) (hquote : isQuote c = false) :
    (item tag s).next c = item tag (s ++ [c]) := by
  simp [next, hgt, hblank, hquote]

theorem ne_closing_of_isBlank {c : Char} (h : Text.isBlank c = true) : c ≠ '>' := by
  rintro rfl
  exact absurd h (by decide)

theorem next_closing {reading : Reading} (h : reading.isOpen = true) : reading.next '>' = text := by
  cases reading with
  | text => cases h
  | name closing s => rfl
  | item tag s => rfl
  | quoted tag s quote => cases h

/-- The character that finishes a tag is the one that leads back to text. -/
theorem finished_ne_nil {reading : Reading} {c : Char} (hreading : reading ≠ text)
    (h : reading.next c = text) : reading.finished c ≠ [] := by
  cases reading with
  | text => exact absurd rfl hreading
  | name closing s =>
      by_cases hgt : c = '>'
      · simp [finished, hgt]
      · rw [next, if_neg hgt] at h
        split_ifs at h
  | item tag s =>
      by_cases hgt : c = '>'
      · simp [finished, hgt]
      · rw [next, if_neg hgt] at h
        split_ifs at h
  | quoted tag s quote =>
      rw [next] at h
      split_ifs at h

/-! ### What is known of a tag -/

/-- A tag with further items, the first of which goes on from the given text. -/
def Continues (tag : Tag) (s : Text) (tag' : Tag) : Prop :=
  tag'.closing = tag.closing ∧ tag'.name = tag.name ∧
    ∃ more, tag'.items = tag.items ++ more ∧ (s ≠ [] → ∃ t rest, more = (s ++ t) :: rest)

/-- What is known of a tag before its end: the start of its name, or the name, the items so far and the
start of the next one.  Behind a bare `<` nothing is known, because `/` may follow. -/
def Began : Reading → Tag → Prop
  | text, _ => True
  | name closing s, tag => closing = true ∨ s ≠ [] → tag.closing = closing ∧ s <+: tag.name
  | item tag s, tag' => Continues tag s tag'
  | quoted tag s _, tag' => Continues tag s tag'

theorem Continues.of_append {tag tag' : Tag} {s t : Text} (h : Continues tag (s ++ t) tag') :
    Continues tag s tag' := by
  obtain ⟨hclosing, hname, more, hitems, hmore⟩ := h
  refine ⟨hclosing, hname, more, hitems, fun hs => ?_⟩
  obtain ⟨u, rest, hrest⟩ := hmore (List.append_ne_nil_of_left_ne_nil hs t)
  exact ⟨t ++ u, rest, by rw [hrest, List.append_assoc]⟩

theorem Continues.of_add {tag tag' : Tag} {s : Text} (h : Continues (tag.add s) [] tag') :
    Continues tag s tag' := by
  obtain ⟨hclosing, hname, more, hitems, -⟩ := h
  by_cases hs : s = []
  · subst hs
    exact ⟨hclosing, hname, more, hitems, fun hne => absurd rfl hne⟩
  · rw [Tag.add, if_neg hs] at hclosing hname hitems
    refine ⟨hclosing, hname, s :: more, by simpa using hitems, fun _ => ⟨[], more, ?_⟩⟩
    rw [List.append_nil]

theorem Continues.add_self (tag : Tag) (s : Text) : Continues tag s (tag.add s) :=
  Continues.of_add ⟨rfl, rfl, [], by simp, fun hne => absurd rfl hne⟩

/-- What is known after a character that finishes no tag was known before. -/
theorem Began.of_next {reading : Reading} {c : Char} {tag : Tag} (hc : reading.finished c = [])
    (h : (reading.next c).Began tag) : reading.Began tag := by
  cases reading with
  | text => trivial
  | name closing s =>
      have hgt : c ≠ '>' := by
        rintro rfl
        cases hc
      rw [next, if_neg hgt] at h
      intro hknown
      split_ifs at h with hblank hslash
      · obtain ⟨hclosing, hname, -⟩ := h
        exact ⟨hclosing, hname ▸ List.prefix_rfl⟩
      · obtain ⟨-, rfl, rfl⟩ := hslash
        exact absurd hknown (by simp)
      · obtain ⟨hclosing, hname⟩ := h (Or.inr (by simp))
        exact ⟨hclosing, (List.prefix_append s [c]).trans hname⟩
  | item tag' s =>
      have hgt : c ≠ '>' := by
        rintro rfl
        cases hc
      rw [next, if_neg hgt] at h
      split_ifs at h with hblank hquote
      · exact Continues.of_add h
      · exact Continues.of_append h
      · exact Continues.of_append h
  | quoted tag' s quote =>
      rw [next] at h
      split_ifs at h
      · exact Continues.of_append h
      · exact Continues.of_append h

theorem began_of_finished {reading : Reading} {c : Char} {tag : Tag}
    (h : tag ∈ reading.finished c) : reading.Began tag := by
  cases reading with
  | text => cases h
  | name closing s =>
      rw [finished] at h
      split at h
      · obtain rfl := List.mem_singleton.1 h
        exact fun _ => ⟨rfl, List.prefix_rfl⟩
      · cases h
  | item tag' s =>
      rw [finished] at h
      split at h
      · obtain rfl := List.mem_singleton.1 h
        exact Continues.add_self tag' s
      · cases h
  | quoted tag' s quote => cases h

/-- **The next tag is what has been read of it, and more.** -/
theorem began_of_tagsFrom {reading : Reading} {s : Text} {tag : Tag} {rest : List Tag}
    (h : reading.tagsFrom s = tag :: rest) : reading.Began tag := by
  induction s generalizing reading with
  | nil => cases h
  | cons c s ih =>
      rw [tagsFrom] at h
      cases hc : reading.finished c with
      | nil =>
          rw [hc, List.nil_append] at h
          exact Began.of_next hc (ih h)
      | cons tag' more =>
          rw [hc, List.cons_append] at h
          rw [← (List.cons.inj h).1]
          exact began_of_finished (hc ▸ List.mem_cons_self ..)

/-! ### Tidy texts -/

/-- A text that finishes the tag it starts in and leaves none open, and where the blanks in tags and
outside of quotes are spaces. -/
def Tidy (reading : Reading) : Text → Prop
  | [] => reading = text
  | c :: s => (reading.isOpen = true → Text.isBlank c = true → c = ' ') ∧ (reading.next c).Tidy s

/-- A tidy text finishes the tag it starts in. -/
theorem Tidy.tagsFrom_ne_nil {reading : Reading} {s : Text} (h : reading.Tidy s)
    (hreading : reading ≠ text) : reading.tagsFrom s ≠ [] := by
  induction s generalizing reading with
  | nil => exact absurd h hreading
  | cons c s ih =>
      rw [tagsFrom]
      by_cases hnext : reading.next c = text
      · exact List.append_ne_nil_of_left_ne_nil (finished_ne_nil hreading hnext) _
      · exact List.append_ne_nil_of_right_ne_nil _ (ih h.2 hnext)

section Pieces

variable {s : Text}

theorem Tidy.cons {reading : Reading} {c : Char} (hc : Text.isBlank c = false)
    (h : (reading.next c).Tidy s) : reading.Tidy (c :: s) :=
  ⟨fun _ hblank => absurd (hblank.symm.trans hc) (by decide), h⟩

theorem Tidy.closing {reading : Reading} (hreading : reading.isOpen = true) (h : text.Tidy s) :
    reading.Tidy ('>' :: s) :=
  .cons rfl (by rwa [next_closing hreading])

theorem not_isBlank_of_isAttributeChar {c : Char} (h : isAttributeChar c = true) :
    Text.isBlank c = false := by
  simp only [isAttributeChar, isNameChar, Bool.or_eq_true, beq_iff_eq] at h
  rcases h with (h | rfl) | rfl
  · exact Query.not_isBlank_of_isNameChar (by simp [Query.isNameChar, h])
  · rfl
  · rfl

/-- The characters of names go on with what they stand in. -/
theorem isOpen_next_of_isAttributeChar {reading : Reading} (hreading : reading.isOpen = true)
    {c : Char} (hc : isAttributeChar c = true) : (reading.next c).isOpen = true := by
  have hgt : c ≠ '>' := ne_of_kind hc rfl
  have hblank := not_isBlank_of_isAttributeChar hc
  have hquote : isQuote c = false :=
    not_isQuote_of_not_isDelimiter (not_isDelimiter_of_isAttributeChar hc)
  cases reading with
  | text => cases hreading
  | name closing s => rw [next_name hgt hblank (ne_of_kind hc rfl)]; rfl
  | item tag s => rw [next_item hgt hblank hquote]; rfl
  | quoted tag s quote => cases hreading

theorem Tidy.name_append {name : Text} (hname : ∀ c ∈ name, isAttributeChar c = true)
    (h : ∀ reading : Reading, reading.isOpen = true → reading.Tidy s) {reading : Reading}
    (hreading : reading.isOpen = true) : reading.Tidy (name ++ s) := by
  induction name generalizing reading with
  | nil => exact h reading hreading
  | cons c name ih =>
      have hc := hname c (List.mem_cons_self ..)
      exact .cons (not_isBlank_of_isAttributeChar hc)
        (ih (fun d hd => hname d (List.mem_cons_of_mem c hd))
          (isOpen_next_of_isAttributeChar hreading hc))

theorem Tidy.item_append {run : Text} (hblank : ∀ c ∈ run, Text.isBlank c = false)
    (hdelimiter : ∀ c ∈ run, isDelimiter c = false) {tag : Tag} {start : Text}
    (h : (item tag (start ++ run)).Tidy s) : (item tag start).Tidy (run ++ s) := by
  induction run generalizing start with
  | nil => rwa [List.append_nil] at h
  | cons c run ih =>
      obtain ⟨hc, hrun⟩ := List.forall_mem_cons.1 hblank
      obtain ⟨hc', hrun'⟩ := List.forall_mem_cons.1 hdelimiter
      have hgt : c ≠ '>' := ne_of_not_isDelimiter hc' rfl
      refine .cons hc ?_
      rw [next_item hgt hc (not_isQuote_of_not_isDelimiter hc')]
      exact ih hrun hrun' (by rwa [List.append_assoc])

theorem Tidy.quoted_append {value : Text} {quote : Quote} (hvalue : quote.val ∉ value) {tag : Tag}
    {start : Text} (h : (quoted tag (start ++ value) quote).Tidy s) :
    (quoted tag start quote).Tidy (value ++ s) := by
  induction value generalizing start with
  | nil => rwa [List.append_nil] at h
  | cons c value ih =>
      obtain ⟨hc, hvalue⟩ := not_or.1 (fun hmem => hvalue (List.mem_cons.2 hmem))
      refine ⟨(fun hopen => by cases hopen), ?_⟩
      rw [next, if_neg (Ne.symm hc)]
      exact ih hvalue (by rwa [List.append_assoc])

/-- An attribute goes on with the tag it stands in. -/
theorem Tidy.attribute_append (attr : Attribute)
    (h : ∀ reading : Reading, reading.isOpen = true → reading.Tidy s) {reading : Reading}
    (hreading : reading.isOpen = true) : reading.Tidy (attr.written ++ s) := by
  obtain ⟨tag, hspace⟩ : ∃ tag, reading.next ' ' = item tag [] := by
    cases reading with
    | text => cases hreading
    | name closing s => exact ⟨_, rfl⟩
    | item tag s => exact ⟨_, rfl⟩
    | quoted tag s quote => cases hreading
  cases attr with
  | bare name =>
      refine ⟨fun _ _ => rfl, ?_⟩
      rw [hspace]
      exact Tidy.name_append name.plain h rfl
  | quoted name quote value =>
      have hsplit : (Attribute.quoted name quote value).written ++ s =
          ' ' :: (name.text ++ ['='] ++ (quote.val :: (value.text ++ (quote.val :: s)))) := by
        simp [Attribute.written]
      have hname : ∀ c ∈ name.text ++ ['='], Text.isBlank c = false ∧ isDelimiter c = false := by
        intro c hc
        rcases List.mem_append.1 hc with hc | hc
        · have hplain := name.plain c hc
          exact ⟨not_isBlank_of_isAttributeChar hplain, not_isDelimiter_of_isAttributeChar hplain⟩
        · rw [List.mem_singleton.1 hc]
          exact ⟨rfl, rfl⟩
      have hquote : Text.isBlank quote.val = false := by
        rcases isQuote_iff.1 quote.property with hq | hq <;> rw [hq] <;> rfl
      have hgt : quote.val ≠ '>' := ne_of_kind quote.property rfl
      have hvalue : quote.val ∉ value.text := fun hmem =>
        absurd (isDelimiter_of_isQuote quote.property) (by simp [value.plain _ hmem])
      rw [hsplit]
      refine ⟨fun _ _ => rfl, ?_⟩
      rw [hspace]
      refine Tidy.item_append (fun c hc => (hname c hc).1) (fun c hc => (hname c hc).2)
        (.cons hquote ?_)
      rw [next, if_neg hgt, if_neg (by simp [hquote]), dif_pos quote.property]
      refine Tidy.quoted_append hvalue ⟨(fun hopen => by cases hopen), ?_⟩
      rw [next, if_pos rfl]
      exact h _ rfl

theorem Tidy.attributes_append (attributes : List Attribute)
    (h : ∀ reading : Reading, reading.isOpen = true → reading.Tidy s) {reading : Reading}
    (hreading : reading.isOpen = true) :
    reading.Tidy (Attribute.allWritten attributes ++ s) := by
  induction attributes generalizing reading with
  | nil => exact h reading hreading
  | cons attr attributes ih =>
      have hsplit : Attribute.allWritten (attr :: attributes) ++ s =
          attr.written ++ (Attribute.allWritten attributes ++ s) := by
        simp [Attribute.allWritten]
      rw [hsplit]
      exact Tidy.attribute_append attr (fun _ => ih) hreading

end Pieces

end Reading

/-! ### Texts that leave nothing open -/

/-- What a text that leaves nothing open is made of: text without delimiters, end tags, and start tags.
Behind the attributes of a start tag its name may go on. -/
inductive ClosedMarkup : Text → Prop
  | nil : ClosedMarkup []
  | character {c : Char} {s : Text} (hc : isDelimiter c = false) (h : ClosedMarkup s) :
      ClosedMarkup (c :: s)
  | endTag {name s : Text} (hname : ∀ c ∈ name, isNameChar c = true) (h : ClosedMarkup s) :
      ClosedMarkup ('<' :: '/' :: (name ++ '>' :: s))
  | startTag {name more s : Text} (attributes : List Attribute)
      (hname : ∀ c ∈ name, isNameChar c = true) (hmore : ∀ c ∈ more, isNameChar c = true)
      (h : ClosedMarkup s) :
      ClosedMarkup ('<' :: (name ++ (Attribute.allWritten attributes ++ (more ++ '>' :: s))))

/-- A text that is made like this is tidy. -/
theorem ClosedMarkup.tidy {s : Text} (h : ClosedMarkup s) : Reading.text.Tidy s := by
  have hattribute : ∀ {name : Text}, (∀ c ∈ name, isNameChar c = true) →
      ∀ c ∈ name, isAttributeChar c = true :=
    fun hname c hc => isAttributeChar_of_isNameChar (hname c hc)
  induction h with
  | nil => rfl
  | @character c s hc h ih =>
      have hlt : c ≠ '<' := ne_of_not_isDelimiter hc rfl
      refine ⟨(fun hopen => by cases hopen), ?_⟩
      rwa [Reading.next, if_neg hlt]
  | endTag hname h ih =>
      refine .cons rfl (.cons rfl ?_)
      exact .name_append (hattribute hname) (fun _ hopen => .closing hopen ih) rfl
  | startTag attributes hname hmore h ih =>
      refine .cons rfl (.name_append (hattribute hname) (fun _ hopen => ?_) rfl)
      refine .attributes_append attributes (fun _ hopen => ?_) hopen
      exact .name_append (hattribute hmore) (fun _ hopen => .closing hopen ih) hopen

/-! ### Back through the first pass -/

/-- Up to an `=` the first pass changes nothing outside of values. -/
theorem exists_of_eraseValues_eq {s run rest : Text} (hrun : '=' ∉ run)
    (h : eraseValues .outside s = run ++ rest) :
    ∃ t, s = run ++ t ∧ eraseValues .outside t = rest := by
  induction run generalizing s with
  | nil => exact ⟨s, rfl, h⟩
  | cons c run ih =>
      rw [List.mem_cons, not_or] at hrun
      cases s with
      | nil => cases h
      | cons d s =>
          rw [eraseValues, if_neg (by simp)] at h
          obtain ⟨rfl, hs⟩ := List.cons.inj h
          have hnext : ValueScan.next .outside d = .outside := if_neg (Ne.symm hrun.1)
          rw [hnext] at hs
          obtain ⟨t, rfl, ht⟩ := ih hrun.2 hs
          exact ⟨t, rfl, ht⟩

/-- In a value the first pass drops what stands before the next delimiter. -/
theorem exists_of_eraseValues_inside {s rest : Text} {c : Char} (hc : isDelimiter c = true)
    (h : eraseValues .inside s = c :: rest) :
    ∃ (value : Value) (t : Text), s = value.text ++ c :: t ∧ eraseValues .outside t = rest := by
  induction s with
  | nil => cases h
  | cons d s ih =>
      rw [eraseValues] at h
      split at h
      · next hdrop =>
          obtain ⟨value, t, rfl, ht⟩ := ih h
          have hd : isDelimiter d = false := by simpa using hdrop.2
          exact ⟨⟨d :: value.text, List.forall_mem_cons.2 ⟨hd, value.plain⟩⟩, t, rfl, ht⟩
      · obtain ⟨rfl, hs⟩ := List.cons.inj h
        rw [ValueScan.next, if_pos hc] at hs
        exact ⟨Value.empty, s, rfl, hs⟩

/-- The first pass leaves an empty value of a value. -/
theorem exists_of_eraseValues_value {s rest : Text} {quote : Char} (hquote : isQuote quote = true)
    (h : eraseValues .outside s = '=' :: quote :: quote :: rest) :
    ∃ (value : Value) (t : Text),
      s = '=' :: quote :: (value.text ++ quote :: t) ∧ eraseValues .outside t = rest := by
  cases s with
  | nil => cases h
  | cons c s =>
      rw [eraseValues, if_neg (by simp)] at h
      obtain ⟨rfl, hs⟩ := List.cons.inj h
      cases s with
      | nil => cases hs
      | cons d s =>
          have hequals : ValueScan.next .outside '=' = .afterEquals := rfl
          rw [hequals, eraseValues, if_neg (by simp)] at hs
          obtain ⟨rfl, hs⟩ := List.cons.inj hs
          rw [ValueScan.next, if_pos hquote] at hs
          obtain ⟨value, t, rfl, ht⟩ := exists_of_eraseValues_inside (isDelimiter_of_isQuote hquote) hs
          exact ⟨value, t, rfl, ht⟩

/-- The finished attributes that the second pass drops stand in the text with their values. -/
theorem exists_attributes_of_dropAttributes {s rest : Text}
    (h : dropAttributes (eraseValues .outside s) = rest) :
    ∃ (attributes : List Attribute) (t : Text),
      s = Attribute.allWritten attributes ++ t ∧ eraseValues .outside t = rest := by
  generalize herased : eraseValues .outside s = erased at h
  fun_induction dropAttributes erased generalizing s with
  | case1 erased rest' hfinished ih =>
      obtain ⟨name, mark, hne, hname, hmarks, rfl⟩ := finishedAttribute?_eq_some_iff.1 hfinished
      have hequals : '=' ∉ ' ' :: name := by
        intro hmem
        rcases List.mem_cons.1 hmem with hspace | hmem
        · exact absurd hspace (by decide)
        · exact not_mem_run hname rfl hmem
      have hsplit : eraseValues .outside s = (' ' :: name) ++ (mark ++ rest') := by
        rw [herased, List.cons_append]
      obtain ⟨t, rfl, ht⟩ := exists_of_eraseValues_eq hequals hsplit
      rcases hmarks with ⟨quote, hquote, rfl⟩ | ⟨rfl, -⟩
      · obtain ⟨value, v, rfl, hv⟩ := exists_of_eraseValues_value hquote ht
        obtain ⟨attributes, u, rfl, hu⟩ := ih hv h
        refine ⟨.quoted ⟨name, hne, hname⟩ ⟨quote, hquote⟩ value :: attributes, u, ?_, hu⟩
        simp [Attribute.allWritten, Attribute.written]
      · obtain ⟨attributes, u, rfl, hu⟩ := ih ht h
        refine ⟨.bare ⟨name, hne, hname⟩ :: attributes, u, ?_, hu⟩
        simp [Attribute.allWritten, Attribute.written]
  | case2 erased hnone => exact ⟨[], s, rfl, herased.trans h⟩

/-- What is closed outside of values is made of text, end tags and start tags. -/
theorem closedMarkup_of_closed {scan : ValueScan} (hscan : scan ≠ .inside) {s : Text}
    (h : eraseClosed (eraseAttributes (eraseValues scan s)) = []) : ClosedMarkup s := by
  -- each tag is followed by a shorter text that is closed, too
  induction hlength : s.length using Nat.strong_induction_on generalizing s scan with
  | _ n ih =>
    subst hlength
    cases s with
    | nil => exact .nil
    | cons c s =>
        by_cases hlt : c = '<'
        · subst hlt
          rw [eraseValues_bracket scan (Or.inl rfl)] at h
          generalize herased : eraseValues .outside s = erased at h
          have hstop := head?_dropWhile_stop isNameChar erased
          have hname : ∀ c ∈ erased.takeWhile isNameChar, isNameChar c = true :=
            fun c hc => List.all_eq_true.1 List.all_takeWhile c hc
          have hsplit : erased.takeWhile isNameChar ++ erased.dropWhile isNameChar = erased :=
            List.takeWhile_append_dropWhile
          by_cases hnil : erased.takeWhile isNameChar = []
          · rw [hnil, List.nil_append] at hsplit
            rw [hsplit] at hstop
            obtain ⟨slash, name, rest, hslash, hne, hname, herest, hrest⟩ :=
              exists_of_closed_endTag hstop h
            rcases hslash with rfl | rfl
            · -- the name would be the name of a start tag
              obtain ⟨d, name, rfl⟩ := List.exists_cons_of_ne_nil hne
              rw [herest] at hstop
              exact absurd (hstop d rfl) (by simp [hname d (List.mem_cons_self ..)])
            · have hequals : '=' ∉ '/' :: (name ++ ['>']) := by
                have hnot : '=' ∉ name := not_mem_run hname rfl
                simpa using hnot
              have hback : eraseValues .outside s = '/' :: (name ++ ['>']) ++ rest := by
                rw [herased, herest]
                simp
              obtain ⟨t, rfl, rfl⟩ := exists_of_eraseValues_eq hequals hback
              have hclosed : ClosedMarkup t := ih t.length
                (by simp only [List.length_cons, List.length_append]; omega)
                (show ValueScan.outside ≠ .inside by decide) hrest rfl
              simpa using ClosedMarkup.endTag hname hclosed
          · rw [← hsplit] at h
            obtain ⟨more, rest, hmore, hdrop, hrest⟩ :=
              exists_dropped_of_closed_tag hnil hname hstop h
            obtain ⟨t, rfl, ht⟩ := exists_of_eraseValues_eq (not_mem_run hname rfl)
              (herased.trans hsplit.symm)
            rw [← ht] at hdrop
            obtain ⟨attributes, u, rfl, hu⟩ := exists_attributes_of_dropAttributes hdrop
            have hequals : '=' ∉ more ++ ['>'] := by
              have hnot : '=' ∉ more := not_mem_run hmore rfl
              simpa using hnot
            obtain ⟨v, rfl, rfl⟩ := exists_of_eraseValues_eq hequals
              (hu.trans (List.append_cons more '>' rest))
            have hclosed : ClosedMarkup v := ih v.length
              (by simp only [List.length_cons, List.length_append]; omega)
                (show ValueScan.outside ≠ .inside by decide) hrest rfl
            simpa using ClosedMarkup.startTag attributes hname hmore hclosed
        · have hkeep : eraseValues scan (c :: s) = c :: eraseValues (scan.next c) s := by
            rw [eraseValues, if_neg (by simp [hscan])]
          rw [hkeep, eraseAttributes_cons fun hc => absurd hc hlt] at h
          by_cases hc : isDelimiter c = false
          · rw [eraseClosed_plain hc] at h
            have hnext : scan.next c ≠ .inside := by
              have hquote := not_isQuote_of_not_isDelimiter hc
              cases scan with
              | inside => exact absurd rfl hscan
              | outside => rw [ValueScan.next]; split <;> decide
              | afterEquals => rw [ValueScan.next, if_neg (by simp [hquote])]; split <;> decide
            exact .character hc (ih s.length (Nat.lt_succ_self _) hnext h rfl)
          · rw [eraseClosed_stuck (by simpa using hc) (wholeTag?_of_ne hlt _)] at h
            cases h

/-- **A text that leaves nothing open is made of text, end tags and start tags.** -/
theorem closedMarkup_of_leftOpen {s : Text} (h : leftOpen s = []) : ClosedMarkup s :=
  closedMarkup_of_closed (show ValueScan.outside ≠ .inside by decide) h

/-- **A text that leaves nothing open has finished tags, with spaces only.** -/
theorem tidy_of_leftOpen {s : Text} (h : leftOpen s = []) : Reading.text.Tidy s :=
  (closedMarkup_of_leftOpen h).tidy

end Markup

end SafeTemplate
