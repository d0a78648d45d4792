/-
**Reading follows the grammar.**

A template is read exactly if it is written by some source whose branches are not nested too deep and
whose placeholders stand where they may; what is read is the meaning of that source.  Both halves go
over the reader piece by piece: the branches of a choice, the parts of a template, and a whole
template, where the reader of the branches is the reader of templates with one level less.

Main definitions: `Template.Sound`, `Template.Complete` — what is asked of a reader of branches.

Main results:

* `Template.sound_readFrame` — what is read is written by a source;
* `Template.complete_readFrame` — every source with its conditions is read;
* `Template.parseWithin_eq_ok_iff` — **reading follows the grammar**, which is unambiguous.
-/

import SafeTemplate.Proofs.Source

set_option autoImplicit false

namespace SafeTemplate.Template

/-- The type of a reader of branches: it takes the residue at the choice and the text. -/
abbrev BranchReader := Residue → Text → Except Rejection (Tree × Text)

/-- Whatever is read is written by a source whose branches nest less than `levels` deep. -/
def Sound (branch : BranchReader) (levels : Nat) : Prop :=
  ∀ {residue : Residue} {s rest : Text} {tree : Tree}, branch residue s = .ok (tree, rest) →
    ∃ source : Source, source.text ++ rest = s ∧ source.tree = tree ∧ source.depth < levels ∧
      source.Alternates ∧ source.Leads residue residue

/-- Every source whose branches nest less than `levels` deep is read, up to where a template ends. -/
def Complete (branch : BranchReader) (levels : Nat) : Prop :=
  ∀ {residue : Residue} {rest : Text} {source : Source}, source.depth < levels →
    source.Alternates → source.Leads residue residue → Ended rest →
      branch residue (source.text ++ rest) = .ok (source.tree, rest)

/-! ### The branches of a choice -/

section Branches

variable {branch : Text → Except Rejection (Tree × Text)} {count : Nat}

theorem readBranches_succ {s rest : Text} {trees : List Tree}
    (h : readBranches branch (count + 1) s = .ok (trees, rest)) :
    (trees = [] ∧ s = rest) ∨
      ∃ tree s₁ s₂ more, s = '{' :: s₁ ∧ branch s₁ = .ok (tree, '}' :: s₂) ∧
        readBranches branch count s₂ = .ok (more, rest) ∧ trees = tree :: more := by
  unfold readBranches at h
  split at h
  · next n s₁ hn =>
      cases hn
      right
      split at h
      · cases h
      · next tree s₂ hbranch =>
          split at h
          · cases h
          · next more s₃ hmore =>
              simp only [Except.ok.injEq, Prod.mk.injEq] at h
              obtain ⟨rfl, rfl⟩ := h
              exact ⟨tree, s₁, s₂, more, rfl, hbranch, hmore, rfl⟩
      · cases h
  · simp only [Except.ok.injEq, Prod.mk.injEq] at h
    exact Or.inl ⟨h.1.symm, h.2⟩

theorem readBranches_zero {s rest : Text} {trees : List Tree}
    (h : readBranches branch 0 s = .ok (trees, rest)) : trees = [] ∧ s = rest := by
  simp only [readBranches, Except.ok.injEq, Prod.mk.injEq] at h
  exact ⟨h.1.symm, h.2⟩

theorem readBranches_of_not_opensBrace (branch : Text → Except Rejection (Tree × Text))
    (count : Nat) {s : Text} (h : Literal.opensBrace s = false) :
    readBranches branch count s = .ok ([], s) := by
  unfold readBranches
  split
  · simp [Literal.opensBrace] at h
  · rfl

theorem readBranches_cons {s s' rest : Text} {tree : Tree} {more : List Tree}
    (h : branch s = .ok (tree, '}' :: s')) (hmore : readBranches branch count s' = .ok (more, rest)) :
    readBranches branch (count + 1) ('{' :: s) = .ok (tree :: more, rest) := by
  simp [readBranches, h, hmore]

end Branches

/-! ### Placeholders -/

/-- A head that is read is a symbol and a snippet. -/
theorem exists_snippet_of_read? {s rest : Text} {head : Placeholder.Head}
    (h : Placeholder.Head.read? s = some (head, rest)) :
    ∃ snippet : Snippet, snippet.text = head.snippet ∧ s = snippet.headed head.symbol ++ rest := by
  have hwritten := Placeholder.Head.read?_eq_some h
  have hsnippet : ∀ c ∈ head.snippet, Placeholder.Head.isSnippetChar c = true := by
    unfold Placeholder.Head.read? at h
    split at h
    · split at h
      · cases h
      · split at h
        · cases h
          intro c hc
          exact (List.all_eq_true.1 List.all_takeWhile) c hc
        · cases h
    · cases h
  exact ⟨⟨head.snippet, hsnippet⟩, rfl, hwritten⟩

section Placeholders

variable {branch : Text → Except Rejection (Tree × Text)} {head : Placeholder.Head}

/-- A placeholder that is read is an insertion, or a choice with its branches. -/
theorem readPlaceholder_cases {s rest : Text} {placeholder : Placeholder}
    (h : readPlaceholder branch head s = .ok (placeholder, rest)) :
    (∃ kind : Insertion, head.symbol = kind.symbol ∧
        placeholder = ⟨kind.kind, head.snippet, []⟩ ∧ s = rest) ∨
      (head.symbol = '?' ∧ ∃ trees, readBranches branch 2 s = .ok (trees, rest) ∧
        placeholder = ⟨.choice, head.snippet, trees⟩) := by
  unfold readPlaceholder at h
  split at h
  · cases h
  · next hsymbol =>
      right
      split at h
      · cases h
      · next trees s₁ hbranches =>
          simp only [Except.ok.injEq, Prod.mk.injEq] at h
          obtain ⟨rfl, rfl⟩ := h
          exact ⟨Placeholder.Kind.ofSymbol?_eq_some_iff.1 hsymbol, trees, hbranches, rfl⟩
  · next kind hkind hsymbol =>
      left
      simp only [Except.ok.injEq, Prod.mk.injEq] at h
      obtain ⟨rfl, rfl⟩ := h
      have hsym := Placeholder.Kind.ofSymbol?_eq_some_iff.1 hsymbol
      cases kind with
      | escaped => exact ⟨.escaped, hsym, rfl, rfl⟩
      | element => exact ⟨.element, hsym, rfl, rfl⟩
      | elements => exact ⟨.elements, hsym, rfl, rfl⟩
      | choice => exact absurd rfl hkind

theorem readPlaceholder_insertion (kind : Insertion) (snippet s : Text) :
    readPlaceholder branch ⟨kind.symbol, snippet⟩ s = .ok (⟨kind.kind, snippet, []⟩, s) := by
  cases kind <;> rfl

theorem readPlaceholder_choice {snippet s rest : Text} {trees : List Tree}
    (h : readBranches branch 2 s = .ok (trees, rest)) :
    readPlaceholder branch ⟨'?', snippet⟩ s = .ok (⟨.choice, snippet, trees⟩, rest) := by
  simp [readPlaceholder, Placeholder.Kind.ofSymbol?, h]

end Placeholders

/-! ### The parts of a template -/

section Parts

variable {branch : BranchReader} {levels : Nat}

/-- A placeholder that is read, and a source of what follows it, make a source. -/
theorem exists_source_of_readPlaceholder (hsound : Sound branch levels) {residue : Residue}
    {head : Placeholder.Head} {snippet : Snippet} (hsnippet : snippet.text = head.snippet)
    {s rest : Text} {placeholder : Placeholder}
    (h : readPlaceholder (branch residue) head s = .ok (placeholder, rest))
    (hallowed : placeholder.kind.allowed residue = true) {more : Source} {tail : Text}
    (hmore : more.text ++ tail = rest) {stop : Residue} (hderives : more.Derives levels residue stop) :
    ∃ source : Source, source.text ++ tail = snippet.headed head.symbol ++ s ∧
      source.parts = placeholder.tree :: more.parts ∧ source.startsLiteral = false ∧
      source.Derives levels residue stop := by
  rcases readPlaceholder_cases h with
    ⟨kind, hsymbol, rfl, rfl⟩ | ⟨hsymbol, trees, hbranches, rfl⟩
  · refine ⟨.insertion kind snippet more, ?_, ?_, rfl, hderives.alternates, hderives.depth_le, ?_⟩
    · rw [Source.text, List.append_assoc, hmore, hsymbol]
    · cases kind <;> simp [Source.parts, Placeholder.tree, Insertion.tree, Insertion.kind, hsnippet]
    · exact ⟨hallowed, hderives.leads⟩
  · rw [hsymbol]
    rcases readBranches_succ hbranches with
      ⟨rfl, rfl⟩ | ⟨yesTree, s₁, s₂, trees₁, rfl, hyes, hbranches₁, rfl⟩
    · refine ⟨.choice snippet more, ?_, ?_, rfl, hderives.alternates, hderives.depth_le,
        hderives.leads⟩
      · rw [Source.text, List.append_assoc, hmore]
      · simp [Source.parts, Placeholder.tree, hsnippet]
    · obtain ⟨yes, rfl, rfl, hyesDepth, hyesAlt, hyesLeads⟩ := hsound hyes
      rcases readBranches_succ hbranches₁ with
        ⟨rfl, rfl⟩ | ⟨noTree, s₃, s₄, trees₂, rfl, hno, hbranches₂, rfl⟩
      · refine ⟨.choiceThen snippet yes more, ?_, ?_, rfl, ⟨hyesAlt, hderives.alternates⟩,
          Nat.max_le.2 ⟨hyesDepth, hderives.depth_le⟩, hyesLeads, hderives.leads⟩
        · simp [Source.text, hmore]
        · simp [Source.parts, Source.tree, Placeholder.tree, hsnippet]
      · obtain ⟨no, rfl, rfl, hnoDepth, hnoAlt, hnoLeads⟩ := hsound hno
        obtain ⟨rfl, rfl⟩ := readBranches_zero hbranches₂
        refine ⟨.choiceThenElse snippet yes no more, ?_, ?_, rfl,
          ⟨hyesAlt, hnoAlt, hderives.alternates⟩,
          Nat.max_le.2 ⟨Nat.max_le.2 ⟨hyesDepth, hnoDepth⟩, hderives.depth_le⟩,
          hyesLeads, hnoLeads, hderives.leads⟩
        · simp [Source.text, hmore]
        · simp [Source.parts, Source.tree, Placeholder.tree, hsnippet]

theorem addPlaceholder_eq_ok_iff {frame frame' : Frame} {placeholder : Placeholder} :
    frame.addPlaceholder placeholder = .ok frame' ↔
      placeholder.kind.allowed frame.here = true ∧
        frame' = ⟨frame.start, frame.here, frame.parts ++ [placeholder.tree]⟩ := by
  unfold Frame.addPlaceholder
  split
  · next hallowed => simp [hallowed, eq_comm]
  · next hallowed => simp [hallowed]

/-- **The parts that are read are written by a source**, and the frame has gone where it leads. -/
theorem exists_source_of_readParts (hsound : Sound branch levels) {fuel : Nat}
    {frame frame' : Frame} {s rest : Text} (h : readParts branch fuel frame s = .ok (frame', rest)) :
    ∃ source : Source, source.text ++ rest = s ∧
      frame' = ⟨frame.start, frame'.here, frame.parts ++ source.parts⟩ ∧
      source.Derives levels frame.here frame'.here ∧
      (Literal.Stops s → source.startsLiteral = false) := by
  induction fuel generalizing frame s with
  | zero =>
      simp only [readParts, Except.ok.injEq, Prod.mk.injEq] at h
      obtain ⟨rfl, rfl⟩ := h
      exact ⟨.nil, rfl, by simp [Source.parts], ⟨trivial, Nat.zero_le _, rfl⟩, fun _ => rfl⟩
  | succ fuel ih =>
      rw [readParts] at h
      split at h
      · next run rest₁ hread =>
          obtain ⟨units, nonempty, rfl, rfl, hstop⟩ := Literal.exists_units_of_read? hread
          obtain ⟨more, rfl, hframe, hderives, hstart⟩ := ih h
          refine ⟨.literal units nonempty more, ?_, ?_,
            ⟨⟨hstart hstop, hderives.alternates⟩, hderives.depth_le, ?_⟩, ?_⟩
          · simp [Source.text]
          · rw [hframe]
            simp [Frame.addLiteral, Source.parts, Literal.unescape_written]
          · simpa [Source.Leads, Frame.addLiteral, Literal.unescape_written] using hderives.leads
          · intro hnone
            rw [Literal.read?_of_stops hnone] at hread
            cases hread
      · next hread =>
          split at h
          · simp only [Except.ok.injEq, Prod.mk.injEq] at h
            obtain ⟨rfl, rfl⟩ := h
            exact ⟨.nil, rfl, by simp [Source.parts], ⟨trivial, Nat.zero_le _, rfl⟩, fun _ => rfl⟩
          · next head rest₁ hhead =>
              split at h
              · cases h
              · next placeholder rest₂ hplaceholder =>
                  split at h
                  · cases h
                  · next frame₁ hadd =>
                      obtain ⟨hallowed, rfl⟩ := addPlaceholder_eq_ok_iff.1 hadd
                      obtain ⟨snippet, hsnippet, rfl⟩ := exists_snippet_of_read? hhead
                      obtain ⟨more, htext, hframe, hderives, -⟩ := ih h
                      obtain ⟨source, hsource, hparts, hstart, hsourceDerives⟩ :=
                        exists_source_of_readPlaceholder hsound hsnippet hplaceholder hallowed
                          htext hderives
                      refine ⟨source, hsource, ?_, hsourceDerives, fun _ => hstart⟩
                      rw [hframe, hparts]
                      simp

/-- One placeholder is read, and then the parts behind it.  The fuel is enough for the text that starts
with the placeholder. -/
theorem readParts_placeholder {source : Source} (hstart : source.startsLiteral = false)
    {rest : Text} (hrest : Ended rest) {head : Placeholder.Head} {rest₁ rest₂ : Text}
    (hhead : source.head? rest = some (head, rest₁)) {frame : Frame} {placeholder : Placeholder}
    (h : readPlaceholder (branch frame.here) head rest₁ = .ok (placeholder, rest₂))
    (hallowed : placeholder.kind.allowed frame.here = true) {fuel : Nat} :
    readParts branch (fuel + 1) frame (source.text ++ rest) =
      readParts branch fuel
        ⟨frame.start, frame.here, frame.parts ++ [placeholder.tree]⟩ rest₂ := by
  have hliteral := Literal.read?_of_stops (Source.stops_text hstart hrest.stops)
  rw [← Source.read?_head_text hstart hrest] at hhead
  rw [readParts]
  simp [hliteral, hhead, h, Frame.addPlaceholder, hallowed]

/-- A part takes one unit of fuel and at least one character. -/
theorem exists_fuel {fuel : Nat} {s : Text} (more : Text) (hlt : more.length < s.length)
    (h : s.length ≤ fuel) : ∃ fuel', fuel = fuel' + 1 ∧ more.length ≤ fuel' :=
  ⟨fuel - 1, by omega, by omega⟩

/-- **Every source is read**, part by part, and the frame goes where the source leads. -/
theorem readParts_text (hcomplete : Complete branch levels) {source : Source} {fuel : Nat}
    {start here stop : Residue} {parts : List Tree} (h : source.Derives levels here stop)
    {rest : Text} (hrest : Ended rest) (hfuel : source.text.length ≤ fuel) :
    readParts branch fuel ⟨start, here, parts⟩ (source.text ++ rest) =
      .ok (⟨start, stop, parts ++ source.parts⟩, rest) := by
  induction source generalizing fuel here parts with
  | nil =>
      obtain rfl : here = stop := h.leads
      cases fuel with
      | zero => simp [readParts, Source.text, Source.parts]
      | succ fuel =>
          simp [readParts, Source.text, Source.parts, Literal.read?_of_stops hrest.stops,
            hrest.read?_head]
  | literal units nonempty more ih =>
      have hread := Source.read?_text h.alternates hrest
      obtain ⟨fuel, rfl, hmore⟩ := exists_fuel more.text (by
        have hwritten := List.length_pos_iff.2 (Literal.written_ne_nil nonempty)
        simp only [Source.text, List.length_append]
        omega) hfuel
      rw [readParts, hread]
      simp only [Source.literal?, Literal.unescape_written, Frame.addLiteral]
      rw [ih ⟨h.alternates.2, h.depth_le, h.leads⟩ hmore]
      simp [Source.parts]
  | insertion kind snippet more ih =>
      obtain ⟨fuel, rfl, hmore⟩ := exists_fuel more.text (by
        simp only [Source.text, Snippet.headed, List.length_append, List.length_cons]
        omega) hfuel
      rw [readParts_placeholder rfl hrest rfl (readPlaceholder_insertion kind _ _) h.leads.1]
      rw [ih ⟨h.alternates, h.depth_le, h.leads.2⟩ hmore]
      cases kind <;> simp [Source.parts, Placeholder.tree, Insertion.kind, Insertion.tree]
  | choice condition more ih =>
      obtain ⟨fuel, rfl, hmore⟩ := exists_fuel more.text (by
        simp only [Source.text, Snippet.headed, List.length_append, List.length_cons]
        omega) hfuel
      have hbranches := readBranches_of_not_opensBrace (branch here) 2
        (more.opensBrace_text hrest.opensBrace)
      rw [readParts_placeholder rfl hrest rfl (readPlaceholder_choice hbranches) rfl]
      rw [ih ⟨h.alternates, h.depth_le, h.leads⟩ hmore]
      simp [Source.parts, Placeholder.tree]
  | choiceThen condition yes more ihYes ihMore =>
      obtain ⟨fuel, rfl, hmore⟩ := exists_fuel more.text (by
        simp only [Source.text, Snippet.headed, List.length_append, List.length_cons]
        omega) hfuel
      obtain ⟨hyesDepth, hmoreDepth⟩ := Nat.max_le.1 h.depth_le
      have hyes := hcomplete hyesDepth h.alternates.1 h.leads.1 (.closing (more.text ++ rest))
      have hbranches := readBranches_cons hyes
        (readBranches_of_not_opensBrace _ 1 (more.opensBrace_text hrest.opensBrace))
      rw [readParts_placeholder rfl hrest rfl (readPlaceholder_choice hbranches) rfl]
      rw [ihMore ⟨h.alternates.2, hmoreDepth, h.leads.2⟩ hmore]
      simp [Source.parts, Source.tree, Placeholder.tree]
  | choiceThenElse condition yes no more ihYes ihNo ihMore =>
      obtain ⟨fuel, rfl, hmore⟩ := exists_fuel more.text (by
        simp only [Source.text, Snippet.headed, List.length_append, List.length_cons]
        omega) hfuel
      obtain ⟨hbranchDepth, hmoreDepth⟩ := Nat.max_le.1 h.depth_le
      obtain ⟨hyesDepth, hnoDepth⟩ := Nat.max_le.1 hbranchDepth
      have hyes := hcomplete hyesDepth h.alternates.1 h.leads.1
        (.closing ('{' :: (no.text ++ '}' :: (more.text ++ rest))))
      have hno := hcomplete hnoDepth h.alternates.2.1 h.leads.2.1 (.closing (more.text ++ rest))
      have hbranches := readBranches_cons hyes (readBranches_cons hno
        (readBranches_of_not_opensBrace _ 0 (more.opensBrace_text hrest.opensBrace)))
      rw [readParts_placeholder rfl hrest rfl (readPlaceholder_choice hbranches) rfl]
      rw [ihMore ⟨h.alternates.2.2, hmoreDepth, h.leads.2.2⟩ hmore]
      simp [Source.parts, Source.tree, Placeholder.tree]

end Parts

/-! ### A whole template -/

theorem close_eq_ok_iff {frame : Frame} {tree : Tree} :
    frame.close = .ok tree ↔ frame.start = frame.here ∧ tree = .ofParts frame.parts := by
  unfold Frame.close
  split
  · next hne => simp [hne]
  · next heq =>
      have hstart : frame.start = frame.here := by simpa using heq
      cases hparts : frame.parts <;> simp [hstart, Tree.ofParts, eq_comm]

/-- **What is read is written by a source.** -/
theorem sound_readFrame (limit levels : Nat) : Sound (readFrame limit levels) levels := by
  induction levels with
  | zero =>
      intro residue s rest tree h
      simp [readFrame] at h
  | succ levels ih =>
      intro residue s rest tree h
      rw [readFrame] at h
      split at h
      · cases h
      · next frame rest₁ hparts =>
          split at h
          · cases h
          · next tree₁ hclose =>
              simp only [Except.ok.injEq, Prod.mk.injEq] at h
              obtain ⟨rfl, rfl⟩ := h
              obtain ⟨source, htext, hframe, hderives, -⟩ := exists_source_of_readParts ih hparts
              obtain ⟨hend, rfl⟩ := close_eq_ok_iff.1 hclose
              have hhere : frame.here = residue := by
                rw [hframe] at hend
                exact hend.symm
              refine ⟨source, htext, ?_, Nat.lt_succ_of_le hderives.depth_le, hderives.alternates, ?_⟩
              · rw [hframe]
                rfl
              · have hleads := hderives.leads
                rw [hhere] at hleads
                exact hleads

/-- **Every source with its conditions is read.** -/
theorem complete_readFrame (limit levels : Nat) : Complete (readFrame limit levels) levels := by
  induction levels with
  | zero =>
      intro residue rest source hdepth
      exact absurd hdepth (Nat.not_lt_zero _)
  | succ levels ih =>
      intro residue rest source hdepth halternates hleads hrest
      have hderives : source.Derives levels (Frame.opened residue).here residue :=
        ⟨halternates, Nat.le_of_lt_succ hdepth, hleads⟩
      have hfuel : source.text.length ≤ (source.text ++ rest).length := by simp
      rw [readFrame, readParts_text ih hderives hrest hfuel]
      simp [close_eq_ok_iff.2, Frame.opened, Source.tree]

/-- A template is read exactly if a source with its conditions writes it. -/
theorem parseWithin_eq_ok_iff {limit : Nat} {residue : Residue} {template : Text} {tree : Tree} :
    parseWithin limit residue template = .ok tree ↔
      ∃ source : Source, source.text = template ∧ source.tree = tree ∧
        source.Derives limit residue residue := by
  constructor
  · intro h
    unfold parseWithin at h
    split at h
    · cases h
    · next tree₁ hread =>
        cases h
        obtain ⟨source, htext, htree, hdepth, halternates, hleads⟩ :=
          sound_readFrame limit (limit + 1) hread
        rw [List.append_nil] at htext
        exact ⟨source, htext, htree, halternates, Nat.le_of_lt_succ hdepth, hleads⟩
    · cases h
  · rintro ⟨source, rfl, rfl, h⟩
    have hread := complete_readFrame limit (limit + 1) (Nat.lt_succ_of_le h.depth_le) h.alternates
      h.leads Ended.nil
    rw [List.append_nil] at hread
    simp [parseWithin, hread]

/-- **Reading follows the grammar.**  A template is read exactly if a source writes it that keeps the
conditions on placeholders and on nesting, and what is read is the meaning of the source.  No text is
written by two sources, whatever their conditions. -/
theorem parseWithin_follows_grammar (limit : Nat) (residue : Residue) (template : Text) :
    (∀ tree, parseWithin limit residue template = .ok tree ↔
      ∃ source : Source, source.text = template ∧ source.tree = tree ∧
        source.Derives limit residue residue) ∧
    (∀ source source' : Source, source.Alternates → source'.Alternates →
      source.text = template → source'.text = template → source = source') := by
  refine ⟨fun tree => parseWithin_eq_ok_iff, ?_⟩
  intro source source' h h' htext htext'
  have heq : source.text ++ [] = source'.text ++ [] := by rw [htext, htext']
  exact (Source.text_unique h h' Ended.nil Ended.nil heq).1

/-- The branch of a choice is an escaped brace, and no other source writes that template. -/
theorem parseWithin_follows_grammar_escape :
    ∃ source : Source, source.text = ['?', '{', 'a', '}', '{', '\\', '{', '}'] ∧
      source.Alternates ∧ parseWithin 1 .topLevel source.text = .ok source.tree ∧
      ∀ source' : Source, source'.Alternates → source'.text = source.text → source' = source := by
  let source : Source := .choiceThen ⟨['a'], List.forall_mem_singleton.2 rfl⟩
    (.literal [.escaped '{' rfl] (List.cons_ne_nil _ _) .nil) .nil
  have halternates : source.Alternates := ⟨⟨rfl, trivial⟩, trivial⟩
  have hleads : source.Leads .topLevel .topLevel := by
    refine ⟨?_, rfl⟩
    show Residue.topLevel.advance ['{'] = .topLevel
    cbv
  obtain ⟨hread, hunique⟩ := parseWithin_follows_grammar 1 .topLevel source.text
  exact ⟨source, rfl, halternates,
    (hread _).2 ⟨source, rfl, rfl, halternates, by decide, hleads⟩,
    fun source' halternates' htext => hunique source' source halternates' halternates htext rfl⟩

end SafeTemplate.Template
