/-
**What stands between the backticks of an expression.**

In CoffeeScript the snippets and the literal texts of a template stand between backticks.  The host
reads its code from the left: outside of a span a backtick opens one; inside, a backslash takes the
next character with it, and any other backtick closes the span.  A literal text is written for this
reading, with a backslash before each of its backticks.  A snippet is written as it is.  It holds no
backtick, so nothing in it closes the span; but a backslash at its end takes the closing backtick with
it.

So the spans of an expression are what the template embeds exactly if every snippet ends with an even
number of backslashes.  That the reading goes on is the other half of the statement: behind a snippet
with a backslash left over, the span holds at least one backtick more than the snippet.

Main definitions:

* `Host.spansFrom`, `Host.spans?` — the spans of some code;
* `Host.stays` — whether a span stays open through a text, and nothing is left over;
* `Host.backslashesAtEnd` — the number of backslashes at the end of a text;
* `Tree.embedded`, `Tree.snippets` — what the expression of a tree embeds, and the snippets among it;
* `Host.Tells` — the spans of some code are known, whatever follows, as far as its snippets stay.

Main results:

* `Host.stays_iff` — a snippet stays exactly if it ends with an even number of backslashes;
* `Host.Tells.snippet`, `Host.Tells.literal` — a snippet and a literal text between backticks;
* `Tree.tells_emit` — the expression of a tree;
* `Template.compile_spans_iff` — **the spans of an expression are what its template embeds exactly if
  every snippet ends with an even number of backslashes**.
-/

import SafeTemplate.Proofs.Readability

set_option autoImplicit false

namespace SafeTemplate

namespace Host

/-! ### Spans -/

/-- The spans of some code, from the left.  `open?` is what has been read of a span that is open at the
start.  There is no result if a span is never closed. -/
def spansFrom : (open? : Option Text) → Text → Option (List Text)
  | none, [] => some []
  | none, c :: s => if c = '`' then spansFrom (some []) s else spansFrom none s
  | some _, [] => none
  | some content, '\\' :: c :: s => spansFrom (some (content ++ ['\\', c])) s
  | some content, c :: s =>
      if c = '`' then (spansFrom none s).map (content :: ·)
      else spansFrom (some (content ++ [c])) s

/-- The spans of some code. -/
def spans? (code : Text) : Option (List Text) :=
  spansFrom none code

/-- Whether a span that is open before a text is open behind it, too, with no backslash left over. -/
def stays : Text → Bool
  | [] => true
  | ['\\'] => false
  | '\\' :: _ :: s => stays s
  | c :: s => c != '`' && stays s

/-- Induction along the escapes of a text. -/
@[elab_as_elim]
theorem escape_induction {motive : Text → Prop} (nil : motive []) (lone : motive ['\\'])
    (escape : ∀ c s, motive s → motive ('\\' :: c :: s))
    (plain : ∀ c s, c ≠ '\\' → motive s → motive (c :: s)) (s : Text) : motive s := by
  fun_induction stays s with
  | case1 => exact nil
  | case2 => exact lone
  | case3 c s ih => exact escape c s ih
  | case4 c s hlone hescape ih =>
      refine plain c s ?_ ih
      rintro rfl
      cases s with
      | nil => exact hlone rfl rfl
      | cons d s => exact hescape d s rfl rfl

theorem spansFrom_backtick (content s : Text) :
    spansFrom (some content) ('`' :: s) = (spansFrom none s).map (content :: ·) := rfl

theorem spansFrom_escape (content : Text) (c : Char) (s : Text) :
    spansFrom (some content) ('\\' :: c :: s) = spansFrom (some (content ++ ['\\', c])) s := rfl

theorem spansFrom_plain {c : Char} (hb : c ≠ '\\') (ht : c ≠ '`') (content s : Text) :
    spansFrom (some content) (c :: s) = spansFrom (some (content ++ [c])) s := by
  rw [spansFrom.eq_5 _ _ _ (fun _ _ hc => absurd hc hb), if_neg ht]

theorem stays_escape (c : Char) (s : Text) : stays ('\\' :: c :: s) = stays s := rfl

theorem stays_plain {c : Char} (hb : c ≠ '\\') (s : Text) : stays (c :: s) = (c != '`' && stays s) :=
  stays.eq_4 _ _ (fun hc => absurd hc hb) (fun _ _ hc => absurd hc hb)

theorem stays_append {u : Text} (h : stays u = true) (v : Text) : stays (u ++ v) = stays v := by
  induction u using escape_induction with
  | nil => rfl
  | lone => cases h
  | escape c s ih => exact ih h
  | plain c s hb ih =>
      rw [stays_plain hb, Bool.and_eq_true] at h
      rw [List.cons_append, stays_plain hb, h.1, ih h.2, Bool.true_and]

/-- A text that stays belongs to the span it stands in. -/
theorem spansFrom_of_stays {u : Text} (h : stays u = true) (content t : Text) :
    spansFrom (some content) (u ++ t) = spansFrom (some (content ++ u)) t := by
  induction u using escape_induction generalizing content with
  | nil => rw [List.nil_append, List.append_nil]
  | lone => cases h
  | escape c s ih =>
      rw [List.cons_append, List.cons_append, spansFrom_escape, ih h, List.append_assoc]
      rfl
  | plain c s hb ih =>
      rw [stays_plain hb, Bool.and_eq_true, bne_iff_ne] at h
      rw [List.cons_append, spansFrom_plain hb h.1, ih h.2, List.append_assoc]
      rfl

/-- Behind a text with a backslash left over, a backtick belongs to the span, too. -/
theorem spansFrom_of_not_stays {u : Text} (hplain : '`' ∉ u) (h : stays u = false)
    (content t : Text) :
    spansFrom (some content) (u ++ '`' :: t) = spansFrom (some (content ++ u ++ ['`'])) t := by
  induction u using escape_induction generalizing content with
  | nil => cases h
  | lone => rw [List.singleton_append, spansFrom_escape, List.append_assoc]; rfl
  | escape c s ih =>
      have hs : '`' ∉ s := fun hmem => hplain (List.mem_cons_of_mem _ (List.mem_cons_of_mem _ hmem))
      rw [List.cons_append, List.cons_append, spansFrom_escape, ih hs h]
      simp
  | plain c s hb ih =>
      have ht : c ≠ '`' := fun heq => hplain (heq ▸ List.mem_cons_self ..)
      have hs : '`' ∉ s := fun hmem => hplain (List.mem_cons_of_mem _ hmem)
      have hstays : stays s = false := by simpa [stays_plain hb, ht] using h
      rw [List.cons_append, spansFrom_plain hb ht, ih hs hstays]
      simp

/-- A span starts with what has been read of it. -/
theorem prefix_of_spansFrom {content s text : Text} {more : List Text}
    (h : spansFrom (some content) s = some (text :: more)) : content <+: text := by
  induction s using escape_induction generalizing content with
  | nil => cases h
  | lone => cases h
  | escape c s ih => exact (List.prefix_append content ['\\', c]).trans (ih h)
  | plain c s hb ih =>
      by_cases ht : c = '`'
      · subst ht
        rw [spansFrom_backtick, Option.map_eq_some_iff] at h
        obtain ⟨texts, -, heq⟩ := h
        rw [(List.cons.inj heq).1]
      · rw [spansFrom_plain hb ht] at h
        exact (List.prefix_append content [c]).trans (ih h)

/-! ### Backslashes at the end -/

/-- The number of backslashes at the end of a text. -/
def backslashesAtEnd (s : Text) : Nat :=
  (s.reverse.takeWhile (· == '\\')).length

theorem backslashesAtEnd_le (s : Text) : backslashesAtEnd s ≤ s.length := by
  have hle := (List.takeWhile_prefix (· == '\\') (l := s.reverse)).length_le
  rwa [List.length_reverse] at hle

theorem backslashesAtEnd_cons (c : Char) (s : Text) :
    backslashesAtEnd (c :: s) =
      if backslashesAtEnd s = s.length then s.length + (if c = '\\' then 1 else 0)
      else backslashesAtEnd s := by
  unfold backslashesAtEnd
  rw [List.reverse_cons, List.takeWhile_append, List.length_reverse]
  split
  · by_cases hc : c = '\\' <;> simp [hc]
  · rfl

theorem backslashesAtEnd_plain {c : Char} (hb : c ≠ '\\') (s : Text) :
    backslashesAtEnd (c :: s) = backslashesAtEnd s := by
  rw [backslashesAtEnd_cons, if_neg hb]
  split
  · next hall => exact hall.symm
  · rfl

/-- A backslash and the character it escapes make no difference to the parity. -/
theorem even_backslashesAtEnd_escape (c : Char) (s : Text) :
    Even (backslashesAtEnd ('\\' :: c :: s)) ↔ Even (backslashesAtEnd s) := by
  have hle := backslashesAtEnd_le s
  have hescaped := backslashesAtEnd_cons c s
  have hescape := backslashesAtEnd_cons '\\' (c :: s)
  rw [List.length_cons, if_pos rfl] at hescape
  rw [Nat.even_iff, Nat.even_iff]
  split_ifs at hescaped hescape <;> omega

/-- **A text without backticks stays exactly if it ends with an even number of backslashes.** -/
theorem stays_iff {u : Text} (hplain : '`' ∉ u) : stays u = true ↔ Even (backslashesAtEnd u) := by
  induction u using escape_induction with
  | nil => simp [stays, backslashesAtEnd]
  | lone => simp [stays, backslashesAtEnd]
  | escape c s ih =>
      have hs : '`' ∉ s := fun hmem => hplain (List.mem_cons_of_mem _ (List.mem_cons_of_mem _ hmem))
      rw [stays_escape, ih hs, even_backslashesAtEnd_escape]
  | plain c s hb ih =>
      have ht : c ≠ '`' := fun heq => hplain (heq ▸ List.mem_cons_self ..)
      have hs : '`' ∉ s := fun hmem => hplain (List.mem_cons_of_mem _ hmem)
      rw [backslashesAtEnd_plain hb, ← ih hs, stays_plain hb, Bool.and_eq_true, bne_iff_ne]
      exact and_iff_right ht

/-! ### Literal texts -/

/-- A character of a literal text stays as it is written. -/
theorem stays_writtenChar (c : Char) : stays (writtenChar .coffeeScript c) = true := by
  rcases char_cases .coffeeScript c with hcontrol | rfl | hguarded | hbare
  · exact control_induction c hcontrol (by decide)
  · rfl
  · rcases isGuarded_cases hguarded with rfl | ⟨-, rfl⟩ <;> rfl
  · have ht : c ≠ '`' := fun heq => absurd (isMark_of_isBare hbare) (heq ▸ by decide)
    rw [writtenChar_of_isBare hbare, stays_plain (isBare_iff.1 hbare).1, bne_iff_ne.2 ht]
    rfl

/-- A literal text stays as it is written between backticks. -/
theorem stays_guardBackticks_quote (s : Text) : stays (guardBackticks (Json.quote s)) = true := by
  have hguarded : ∀ t, stays (guarded s ++ t) = stays t := by
    intro t
    induction s with
    | nil => rfl
    | cons c s ih => rw [guarded_cons, List.append_assoc, stays_append (stays_writtenChar c), ih]
  rw [guardBackticks_quote, stays_plain (by decide), hguarded]
  rfl

/-! ### The spans of some code -/

/-- The spans of some code are the given texts, whatever follows, exactly as far as the snippets among
them stay. -/
def Tells (code : Text) (texts snippets : List Text) : Prop :=
  ∀ (t : Text) (more : List Text),
    spans? (code ++ t) = some (texts ++ more) ↔
      (∀ snippet ∈ snippets, stays snippet = true) ∧ spans? t = some more

namespace Tells

theorem append {code code' : Text} {texts texts' snippets snippets' : List Text}
    (h : Tells code texts snippets) (h' : Tells code' texts' snippets') :
    Tells (code ++ code') (texts ++ texts') (snippets ++ snippets') := by
  intro t more
  rw [List.append_assoc, List.append_assoc, h, h', ← and_assoc, List.forall_mem_append]

/-- Code without backticks has no spans. -/
theorem plain {code : Text} (h : '`' ∉ code) : Tells code [] [] := by
  intro t more
  have hskip : spans? (code ++ t) = spans? t := by
    induction code with
    | nil => rfl
    | cons c code ih =>
        obtain ⟨hc, hcode⟩ := not_or.1 (fun hmem => h (List.mem_cons.2 hmem))
        rw [List.cons_append, spans?, spansFrom, if_neg (Ne.symm hc)]
        exact ih hcode
  simp [hskip]

section Plain

variable {code : Text} {texts snippets : List Text}

theorem preceded {lead : Text} (hlead : '`' ∉ lead) (h : Tells code texts snippets) :
    Tells (lead ++ code) texts snippets :=
  (plain hlead).append h

theorem followed {tail : Text} (h : Tells code texts snippets) (htail : '`' ∉ tail) :
    Tells (code ++ tail) texts snippets := by
  have happend := h.append (plain htail)
  rwa [List.append_nil, List.append_nil] at happend

end Plain

/-- A snippet between backticks is a span if it stays. -/
theorem snippet {u : Text} (hplain : '`' ∉ u) : Tells (embed .coffeeScript u) [u] [u] := by
  intro t more
  have hopen : spans? (embed .coffeeScript u ++ t) = spansFrom (some []) (u ++ '`' :: t) := by
    simp [embed, spans?, spansFrom]
  rw [hopen, List.forall_mem_singleton]
  cases hstays : stays u with
  | true =>
      rw [spansFrom_of_stays hstays, spansFrom_backtick, List.nil_append, spans?]
      simp
  | false =>
      -- the span that is read holds a backtick behind the snippet
      rw [spansFrom_of_not_stays hplain hstays]
      refine iff_of_false ?_ (by simp)
      intro hspans
      have hlength := (prefix_of_spansFrom hspans).length_le
      simp at hlength

/-- A literal text between backticks is a span. -/
theorem literal (s : Text) :
    Tells (Host.literal .coffeeScript s) [guardBackticks (Json.quote s)] [] := by
  intro t more
  have hstays : stays (guardBackticks (Json.quote s)) = true := stays_guardBackticks_quote s
  have hopen : spans? (Host.literal .coffeeScript s ++ t) =
      spansFrom (some []) (guardBackticks (Json.quote s) ++ '`' :: t) := by
    simp [Host.literal, embed, spans?, spansFrom]
  rw [hopen, spansFrom_of_stays hstays, spansFrom_backtick, List.nil_append, spans?]
  simp

end Tells
end Host

/-! ### The spans of an expression -/

namespace Tree

open Host (Tells)

mutual

/-- What the expression of a tree embeds: its snippets as they are, and its literal texts as string
literals with a backslash before each backtick. -/
def embedded : Tree → List Text
  | empty => []
  | literal text => [Host.guardBackticks (Json.quote text)]
  | escaped snippet => [snippet]
  | element snippet => [snippet]
  | elements snippet => [snippet]
  | choice condition yes no => condition :: (yes.embedded ++ no.embedded)
  | sequence parts => embeddedParts parts

/-- What the expressions of some trees embed. -/
def embeddedParts : List Tree → List Text
  | [] => []
  | part :: more => part.embedded ++ embeddedParts more

end

mutual

/-- The snippets of a tree. -/
def snippets : Tree → List Text
  | empty => []
  | literal _ => []
  | escaped snippet => [snippet]
  | element snippet => [snippet]
  | elements snippet => [snippet]
  | choice condition yes no => condition :: (yes.snippets ++ no.snippets)
  | sequence parts => snippetsOf parts

/-- The snippets of some trees. -/
def snippetsOf : List Tree → List Text
  | [] => []
  | part :: more => part.snippets ++ snippetsOf more

end

mutual

/-- **The spans of the expression of a tree are what it embeds**, exactly as far as its snippets
stay. -/
theorem tells_emit : (tree : Tree) → (∀ snippet ∈ tree.snippets, '`' ∉ snippet) →
    Tells (tree.emit .coffeeScript) tree.embedded tree.snippets
  | empty, _ => .plain (by decide)
  | literal text, _ => .literal text
  | escaped snippet, h =>
      ((Tells.snippet (h snippet (List.mem_singleton_self _))).preceded (by decide)).followed
        (by decide)
  | element snippet, h => (Tells.snippet (h snippet (List.mem_singleton_self _))).followed (by decide)
  | elements snippet, h =>
      ((Tells.snippet (h snippet (List.mem_singleton_self _))).preceded (by decide)).followed
        (by decide)
  | choice condition yes no, h => by
      simp only [snippets, List.forall_mem_cons, List.forall_mem_append] at h
      obtain ⟨hcondition, hyes, hno⟩ := h
      have hif : '`' ∉ "(if ".toList := by decide
      have hthen : '`' ∉ " then ".toList := by decide
      have helse : '`' ∉ " else ".toList := by decide
      have hfirst := ((Tells.snippet hcondition).preceded hif).followed hthen
      have hsecond := (hfirst.append (tells_emit yes hyes)).followed helse
      exact (hsecond.append (tells_emit no hno)).followed (by decide)
  | sequence [], _ => .plain (by decide)
  | sequence (part :: more), h => by
      simp only [snippets, snippetsOf, List.forall_mem_append] at h
      have hcode := (tells_emit part h.1).append (tells_codeAfter more h.2)
      rwa [← emit_ofParts_cons] at hcode

/-- So are the spans of the code of parts that others stand before. -/
theorem tells_codeAfter : (parts : List Tree) → (∀ snippet ∈ snippetsOf parts, '`' ∉ snippet) →
    Tells (codeAfter parts) (embeddedParts parts) (snippetsOf parts)
  | [], _ => .plain (by decide)
  | part :: more, h => by
      simp only [snippetsOf, List.forall_mem_append] at h
      exact ((tells_emit part h.1).append (tells_codeAfter more h.2)).preceded (by decide)

end

theorem snippets_ofParts (parts : List Tree) : (ofParts parts).snippets = snippetsOf parts := by
  cases parts <;> rfl

/-- No snippet of a template holds a backtick. -/
theorem Parts.backtick_not_mem {parts : List Tree} (h : Parts parts) :
    ∀ snippet ∈ snippetsOf parts, '`' ∉ snippet := by
  induction h with
  | nil => exact List.forall_mem_nil _
  | literal text hmore ih => exact ih
  | insertion kind snippet hmore ih =>
      have hsnippets : (kind.tree snippet.text).snippets = [snippet.text] := by cases kind <;> rfl
      rw [snippetsOf, hsnippets, List.singleton_append, List.forall_mem_cons]
      exact ⟨snippet.backtick_not_mem, ih⟩
  | choice condition hyes hno hmore ihYes ihNo ihMore =>
      rw [snippetsOf, snippets, snippets_ofParts, snippets_ofParts, List.forall_mem_append,
        List.forall_mem_cons, List.forall_mem_append]
      exact ⟨⟨condition.backtick_not_mem, ihYes, ihNo⟩, ihMore⟩

end Tree

/-! ### Templates -/

namespace Template

/-- **The spans of the expression of a template are what the template embeds exactly if every snippet
ends with an even number of backslashes.** -/
theorem compile_spans_iff {residue : Residue} {template code : Text}
    (h : compile .coffeeScript residue template = .ok code) :
    ∃ tree, parse residue template = .ok tree ∧
      (Host.spans? code = some tree.embedded ↔
        ∀ snippet ∈ tree.snippets, Even (Host.backslashesAtEnd snippet)) := by
  unfold compile at h
  split at h
  · cases h
  · next tree hparse =>
      cases h
      obtain ⟨parts, hparts, rfl⟩ := exists_parts_of_parse hparse
      have hplain : ∀ snippet ∈ (Tree.ofParts parts).snippets, '`' ∉ snippet := by
        rw [Tree.snippets_ofParts]
        exact hparts.backtick_not_mem
      have htells := (Tree.ofParts parts).tells_emit hplain [] []
      have hnothing : Host.spans? [] = some [] := rfl
      rw [List.append_nil, List.append_nil, and_iff_left hnothing] at htells
      refine ⟨_, hparse, htells.trans ?_⟩
      exact forall₂_congr fun snippet hmem => Host.stays_iff (hplain snippet hmem)

/-- One snippet ends with two backslashes, another is the condition of a choice, and a literal text holds
a backtick behind a backslash. -/
theorem compile_spans_iff_even :
    ∃ code, compile .coffeeScript .topLevel "$\x7bx\\\\\x7d?{c}\x7b\\\\`\x7d".toList = .ok code ∧
      Host.spans? code = some ["x\\\\".toList, ['c'], "\"\\\\\\`\"".toList] := by
  have hparse : parse .topLevel "$\x7bx\\\\\x7d?{c}\x7b\\\\`\x7d".toList =
      .ok (.sequence [.escaped "x\\\\".toList,
        .choice ['c'] (.sequence [.literal "\\`".toList]) .empty]) := by
    cbv
  have hcode : compile .coffeeScript .topLevel "$\x7bx\\\\\x7d?{c}\x7b\\\\`\x7d".toList =
      .ok "E(`x\\\\`) + (if `c` then `\"\\\\\\`\"` else \"\")".toList := by
    rw [compile, hparse]
    rfl
  obtain ⟨tree, htree, hiff⟩ := compile_spans_iff hcode
  rw [hparse] at htree
  cases htree
  exact ⟨_, hcode, hiff.2 (by decide)⟩

/-- **A snippet may take the backtick behind it with it**: the span of a snippet that ends with a
backslash is not closed. -/
theorem not_compile_spans :
    ¬∀ (residue : Residue) (template code : Text),
      compile .coffeeScript residue template = .ok code →
        ∃ tree, parse residue template = .ok tree ∧ Host.spans? code = some tree.embedded := by
  intro h
  have hcode : compile .coffeeScript .topLevel ['$', '{', 'a', '\\', '}'] = .ok "E(`a\\`)".toList := by
    cbv
  obtain ⟨tree, -, hspans⟩ := h _ _ _ hcode
  have hopen : Host.spans? "E(`a\\`)".toList = none := by decide
  rw [hopen] at hspans
  cases hspans

end Template

end SafeTemplate
