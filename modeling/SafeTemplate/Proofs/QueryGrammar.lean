/-
**Reading a query follows its grammar.**

Both halves go over the reader piece by piece.  One half takes apart what is read, by induction on
the depth of its calls; the other puts it together, by induction on the tokens.  Behind a query
stands a comma or a closing parenthesis, if anything; behind the root of a path or one of its steps,
another step may start too.  So wherever a piece ends, the next one shows it.

Main definitions:

* `Query.ends`, `Query.stepEnds` — what may stand next behind a query, or a step;
* `Query.Reading` — how a query is read;
* `Query.Sound`, `Query.Reads` — what is asked of a reader of arguments.

Main results:

* `Query.readTerm_eq_ok_iff` — reading a query, one case for each way;
* `Query.sound_readTerm`, `Query.Written.reads` — what is read is written, and conversely;
* `Query.parse_eq_ok_iff` — a text is a query exactly if tokens of the query spell it;
* `Query.parse_follows_grammar` — **reading follows the grammar**, and every query that can be built
  has a plain spelling.
-/

import SafeTemplate.Proofs.QueryTokens

set_option autoImplicit false

namespace SafeTemplate.Query

/-! ### Steps -/

/-- The characters that may stand next behind a query. -/
def ends : List Char :=
  [',', ')']

/-- The characters that may stand next behind the root of a path or one of its steps. -/
def stepEnds : List Char :=
  ['.', '[', ',', ')']

/-- What stands in brackets is read up to the closing one. -/
theorem readIndex_append {spelling : Spelling} {step : Step} {token : Text}
    (h : StepTokens spelling step [['['], token, [']']]) {blanks : Text} (hblanks : IsBlank blanks)
    {rest : Text} (hrest : Next [']'] rest) :
    readIndex (blanks ++ (token ++ rest)) = .ok (step, rest) := by
  cases h with
  | key h =>
      obtain ⟨hquote, hbody⟩ := h
      have hplain := Markup.stop_cons (not_isBlank_of_isQuote hquote)
      rw [readIndex, List.cons_append, List.append_assoc, skipBlank_append hblanks (hplain _)]
      simp only [hquote, if_true, List.singleton_append, readQuoted_body hquote hbody]
  | index hne hdigits hlt =>
      have hstop := hrest.stop not_isBlank_of_isDigit (by simp)
      cases token with
      | nil => exact absurd rfl hne
      | cons c t =>
          have hdigit := hdigits c (List.mem_cons_self ..)
          have hplain := Markup.stop_cons (not_isBlank_of_isDigit hdigit)
          rw [readIndex, List.cons_append, skipBlank_append hblanks (hplain _)]
          simp only [not_isQuote rfl rfl hdigit, hdigit, if_true, Bool.false_eq_true, if_false]
          rw [← List.cons_append, Markup.takeWhile_append_stop hdigits hstop,
            Markup.dropWhile_append_stop hdigits hstop, if_pos hlt]

theorem exists_token_of_readIndex {s rest : Text} {step : Step}
    (h : readIndex s = .ok (step, rest)) :
    ∃ blanks token, IsBlank blanks ∧ s = blanks ++ (token ++ rest) ∧
      StepTokens .free step [['['], token, [']']] := by
  obtain ⟨blanks, hblanks, hs⟩ := exists_blanks s
  unfold readIndex at h
  split at h
  · cases h
  · next c t heq =>
      rw [heq] at hs
      split at h
      · next hquote =>
          split at h
          · cases h
          · next key s' hread =>
              cases h
              obtain ⟨body, hbody, rfl⟩ := exists_body_of_readQuoted hread
              exact ⟨blanks, c :: (body ++ [c]), hblanks, by simpa using hs, .key (.mk hquote hbody)⟩
      · split at h
        · next hdigit =>
            dsimp only at h
            split at h
            · next hlt =>
                cases h
                refine ⟨blanks, (c :: t).takeWhile Char.isDigit, hblanks, ?_, .index ?_ ?_ hlt⟩
                · rw [List.takeWhile_append_dropWhile]
                  exact hs
                · simp [hdigit]
                · exact List.all_eq_true.1 List.all_takeWhile
            · cases h
        · cases h

section Steps

variable {fuel : Nat} {more : List Step} {front rest : Text}

/-- A point and a name are read, and then the other steps. -/
theorem readSteps_name {name : Text} (hname : IsName name) (hfront : Spaced [['.'], name] front)
    {s : Text} (hs : Next stepEnds s) (hmore : readSteps fuel s = .ok (more, rest)) :
    readSteps (fuel + 1) (front ++ s) = .ok (.key name :: more, rest) := by
  obtain ⟨blanks, back, rfl, hblanks, hback⟩ := hfront.exists_cons
  obtain ⟨blanks', rfl, hblanks'⟩ := hback.exists_singleton
  obtain ⟨c, t, hskip, hstart, hread⟩ := readName_of_isName hname hblanks'
    (hs.stop_name (by simp [stepEnds, isNameChar]))
  have hpoint : eat '.' (blanks ++ (['.'] ++ (blanks' ++ name)) ++ s) =
      some (blanks' ++ (name ++ s)) := by
    rw [List.append_assoc, List.append_assoc, List.append_assoc]
    exact eat_append hblanks rfl _
  rw [readSteps, hpoint]
  simp only [hskip, hstart, if_true, hread, hmore]

/-- Something in brackets is read, and then the other steps. -/
theorem readSteps_brackets {spelling : Spelling} {step : Step} {token : Text}
    (h : StepTokens spelling step [['['], token, [']']])
    (hfront : Spaced [['['], token, [']']] front) {s : Text}
    (hmore : readSteps fuel s = .ok (more, rest)) :
    readSteps (fuel + 1) (front ++ s) = .ok (step :: more, rest) := by
  obtain ⟨blanks, back, rfl, hblanks, hback⟩ := hfront.exists_cons
  obtain ⟨blanks', back, rfl, hblanks', hback⟩ := hback.exists_cons
  obtain ⟨blanks'', rfl, hblanks''⟩ := hback.exists_singleton
  have hopening : blanks ++ (['['] ++ (blanks' ++ (token ++ (blanks'' ++ [']'])))) ++ s =
      blanks ++ '[' :: (blanks' ++ (token ++ (blanks'' ++ ']' :: s))) := by simp
  have hclosing : Next [']'] (blanks'' ++ ']' :: s) :=
    Next.cons hblanks'' rfl (List.mem_singleton_self _)
  have hpoint : Next ['['] (blanks ++ '[' :: (blanks' ++ (token ++ (blanks'' ++ ']' :: s)))) :=
    Next.cons hblanks rfl (List.mem_singleton_self _)
  rw [hopening, readSteps, hpoint.eat (by decide), eat_append hblanks rfl]
  simp only [readIndex_append h hblanks' hclosing, eat_append hblanks'' (c := ']') rfl, hmore]

theorem StepTokens.length_pos {spelling : Spelling} {step : Step} {tokens : List Text}
    (h : StepTokens spelling step tokens) : 0 < tokens.flatten.length := by
  cases h <;> simp

/-- One step is read, and then the others. -/
theorem readSteps_step {spelling : Spelling} {step : Step} {tokens : List Text}
    (h : StepTokens spelling step tokens) (hfront : Spaced tokens front) {s : Text}
    (hs : Next stepEnds s) (hmore : readSteps fuel s = .ok (more, rest)) :
    readSteps (fuel + 1) (front ++ s) = .ok (step :: more, rest) := by
  cases h with
  | name hname => exact readSteps_name hname hfront hs hmore
  | key h => exact readSteps_brackets (.key h) hfront hmore
  | index hne hdigits hlt =>
      have hindex : StepTokens spelling _ _ := .index hne hdigits hlt
      exact readSteps_brackets hindex hfront hmore

/-- No step is read, or one and then the others. -/
theorem readSteps_cases {s : Text} {steps : List Step}
    (h : readSteps (fuel + 1) s = .ok (steps, rest)) :
    (steps = [] ∧ s = rest) ∨
      ∃ step tokens front more s', StepTokens .free step tokens ∧ Spaced tokens front ∧
        s = front ++ s' ∧ readSteps fuel s' = .ok (more, rest) ∧ steps = step :: more := by
  rw [readSteps] at h
  split at h
  · next s₁ hpoint =>
      right
      obtain ⟨blanks, hblanks, rfl⟩ := exists_blanks_of_eat hpoint
      obtain ⟨blanks', hblanks', hs₁⟩ := exists_blanks s₁
      split at h
      · cases h
      · next c s₂ heq =>
          rw [heq] at hs₁
          split at h
          · next hstart =>
              split at h
              · cases h
              · next more' rest' hmore =>
                  cases h
                  refine ⟨_, _, _, more', _, .name (isName_readName hstart s₂),
                    .cons hblanks ['.'] (spaced_singleton hblanks' _), ?_, hmore, rfl⟩
                  simp [hs₁, readName_append (c :: s₂)]
          · cases h
  · split at h
    · cases h
      exact Or.inl ⟨rfl, rfl⟩
    · next s₁ hopening =>
        right
        obtain ⟨blanks, hblanks, rfl⟩ := exists_blanks_of_eat hopening
        split at h
        · cases h
        · next step s₂ hindex =>
            obtain ⟨blanks', token, hblanks', rfl, htokens⟩ := exists_token_of_readIndex hindex
            split at h
            · cases h
            · next s₃ hclosing =>
                obtain ⟨blanks'', hblanks'', rfl⟩ := exists_blanks_of_eat hclosing
                split at h
                · cases h
                · next more' rest' hmore =>
                    cases h
                    refine ⟨step, _, _, more', s₃, htokens, .cons hblanks ['['] (.cons hblanks' token
                      (spaced_singleton hblanks'' [']'])), ?_, hmore, rfl⟩
                    simp

/-- Steps start with a point or a bracket. -/
theorem next_steps {spelling : Spelling} {steps : List (Step × List Text)}
    (hsteps : ∀ step ∈ steps, StepTokens spelling step.1 step.2)
    (hfront : Spaced (steps.map Prod.snd).flatten front) (hrest : Next ends rest) :
    Next stepEnds (front ++ rest) := by
  refine Next.spaced hfront (hrest.mono (by decide)) ?_
  intro token htoken
  cases steps with
  | nil => cases htoken
  | cons step steps =>
      have hstep := hsteps step (List.mem_cons_self ..)
      obtain ⟨step, tokens⟩ := step
      cases hstep with
      | name h =>
          cases htoken
          exact ⟨'.', rfl, rfl, by decide⟩
      | key h =>
          cases htoken
          exact ⟨'[', rfl, rfl, by decide⟩
      | index hne hdigits hlt =>
          cases htoken
          exact ⟨'[', rfl, rfl, by decide⟩

/-- **Steps are read**, each with one unit of fuel. -/
theorem readSteps_append {spelling : Spelling} {steps : List (Step × List Text)}
    (hsteps : ∀ step ∈ steps, StepTokens spelling step.1 step.2)
    (hfront : Spaced (steps.map Prod.snd).flatten front) (hrest : Next ends rest)
    (hfuel : front.length ≤ fuel) :
    readSteps fuel (front ++ rest) = .ok (steps.map Prod.fst, rest) := by
  induction steps generalizing front fuel with
  | nil =>
      cases hfront
      cases fuel with
      | zero => rfl
      | succ fuel =>
          rw [List.nil_append, readSteps, hrest.eat (by decide), hrest.eat (by decide)]
          rfl
  | cons step steps ih =>
      obtain ⟨front₁, front₂, rfl, hfront₁, hfront₂⟩ := hfront.exists_append
      have hstep := hsteps step (List.mem_cons_self ..)
      have hmore : ∀ step ∈ steps, StepTokens spelling step.1 step.2 := fun step' hmem =>
        hsteps step' (List.mem_cons_of_mem step hmem)
      have hpos := hstep.length_pos.trans_le hfront₁.length_le
      rw [List.length_append] at hfuel
      obtain ⟨fuel, rfl⟩ : ∃ fuel', fuel = fuel' + 1 := ⟨fuel - 1, by omega⟩
      rw [List.append_assoc]
      exact readSteps_step hstep hfront₁ (next_steps hmore hfront₂ hrest)
        (ih hmore hfront₂ (by omega))

/-- **What is read as steps is written as steps.** -/
theorem exists_steps_of_readSteps {s : Text} {steps : List Step}
    (h : readSteps fuel s = .ok (steps, rest)) :
    ∃ (pairs : List (Step × List Text)) (front : Text), pairs.map Prod.fst = steps ∧
      (∀ pair ∈ pairs, StepTokens .free pair.1 pair.2) ∧
      Spaced (pairs.map Prod.snd).flatten front ∧ s = front ++ rest := by
  induction fuel generalizing s steps with
  | zero =>
      cases h
      exact ⟨[], [], rfl, by simp, .nil, rfl⟩
  | succ fuel ih =>
      rcases readSteps_cases h with ⟨rfl, rfl⟩ | ⟨step, tokens, front, more, s', htokens, hfront,
        rfl, hmore, rfl⟩
      · exact ⟨[], [], rfl, by simp, .nil, rfl⟩
      · obtain ⟨pairs, back, rfl, hpairs, hback, rfl⟩ := ih hmore
        refine ⟨(step, tokens) :: pairs, front ++ back, rfl, ?_, hfront.append hback, by simp⟩
        intro pair hpair
        rcases List.mem_cons.1 hpair with rfl | hpair
        · exact htokens
        · exact hpairs pair hpair

end Steps

/-! ### Queries -/

/-- How a query is read: one case for each way. -/
inductive Reading (depth : Nat) (s rest : Text) : Query → Prop
  | string {c : Char} {s' text : Text} (hs : Text.skipBlank s = c :: s') (hc : isQuote c = true)
      (hread : readQuoted c s' = .ok (text, rest)) :
      Reading depth s rest (.constant (.string text))
  | number {c : Char} {s' : Text} {n : Json.Number} (hs : Text.skipBlank s = c :: s')
      (hc : (c.isDigit || c == '-') = true) (hread : readNumber (c :: s') = .ok (n, rest)) :
      Reading depth s rest (.constant (.number n))
  | keyword {c : Char} {s' name : Text} {value : Json.Value} (hs : Text.skipBlank s = c :: s')
      (hc : isNameStart c = true) (hname : readName (c :: s') = (name, rest))
      (hkeyword : keyword? name = some value) : Reading depth s rest (.constant value)
  | path {c : Char} {s' name s₁ : Text} {steps : List Step} (hs : Text.skipBlank s = c :: s')
      (hc : isNameStart c = true) (hname : readName (c :: s') = (name, s₁))
      (hkeyword : keyword? name = none) (hopening : eat '(' s₁ = none)
      (hread : readSteps s₁.length s₁ = .ok (steps, rest)) : Reading depth s rest (.path name steps)
  | call {c : Char} {s' name s₁ s₂ : Text} (hs : Text.skipBlank s = c :: s')
      (hc : isNameStart c = true) (hname : readName (c :: s') = (name, s₁))
      (hkeyword : keyword? name = none) (hopening : eat '(' s₁ = some s₂)
      (hclosing : eat ')' s₂ = some rest) : Reading depth s rest (.call name [])
  | callWith {c : Char} {s' name s₁ s₂ : Text} {depth' : Nat} {arguments : List Query}
      (hs : Text.skipBlank s = c :: s') (hc : isNameStart c = true)
      (hname : readName (c :: s') = (name, s₁)) (hkeyword : keyword? name = none)
      (hopening : eat '(' s₁ = some s₂) (hclosing : eat ')' s₂ = none) (hdepth : depth = depth' + 1)
      (hread : readArguments (readTerm depth') (s₂.length + 1) s₂ = .ok (arguments, rest)) :
      Reading depth s rest (.call name arguments)

theorem not_isSign_of_isNameStart {c : Char} (h : isNameStart c = true) :
    (c.isDigit || c == '-') = false := by
  cases hc : (c.isDigit || c == '-') with
  | false => rfl
  | true =>
      simp only [isNameStart, Char.isAlpha, Char.isUpper, Char.isLower, Bool.or_eq_true,
        Bool.and_eq_true, decide_eq_true_eq, UInt32.le_iff_toNat_le, beq_iff_eq, ge_iff_le,
        Char.toNat_val, Char.reduceToNat, Char.isDigit] at h hc
      rcases hc with hc | rfl
      · rcases h with (h | rfl) | rfl
        · omega
        · revert hc
          decide
        · revert hc
          decide
      · revert h
        decide

/-- **Reading a query**, one case for each way. -/
theorem readTerm_eq_ok_iff {depth : Nat} {s rest : Text} {query : Query} :
    readTerm depth s = .ok (query, rest) ↔ Reading depth s rest query := by
  constructor
  · intro h
    unfold readTerm at h
    split at h
    · cases h
    · next c s' hs =>
        split at h
        · next hc =>
            split at h
            · cases h
            · next text s'' hread =>
                cases h
                exact .string hs hc hread
        · split at h
          · next hc =>
              split at h
              · cases h
              · next n s'' hread =>
                  cases h
                  exact .number hs hc hread
          · split at h
            · next hc =>
                dsimp only at h
                split at h
                · next value hkeyword =>
                    cases h
                    exact .keyword hs hc rfl hkeyword
                · next hkeyword =>
                    split at h
                    · next hopening =>
                        split at h
                        · cases h
                        · next steps s'' hread =>
                            cases h
                            exact .path hs hc rfl hkeyword hopening hread
                    · next s₂ hopening =>
                        split at h
                        · next s'' hclosing =>
                            cases h
                            exact .call hs hc rfl hkeyword hopening hclosing
                        · next hclosing =>
                            split at h
                            · cases h
                            · split at h
                              · cases h
                              · next depth' arguments s'' hread =>
                                  cases h
                                  exact .callWith hs hc rfl hkeyword hopening hclosing rfl hread
            · cases h
  · intro h
    unfold readTerm
    cases h with
    | string hs hc hread => simp [hs, hc, hread]
    | @number c s' n hs hc hread =>
        have hquote : isQuote c = false := not_isQuote (p := fun c => c.isDigit || c == '-') rfl rfl hc
        simp [hs, hquote, hc, hread]
    | keyword hs hc hname hkeyword =>
        simp [hs, not_isQuote rfl rfl hc, not_isSign_of_isNameStart hc, hc, hname, hkeyword]
    | path hs hc hname hkeyword hopening hread =>
        simp [hs, not_isQuote rfl rfl hc, not_isSign_of_isNameStart hc, hc, hname, hkeyword,
          hopening, hread]
    | call hs hc hname hkeyword hopening hclosing =>
        simp [hs, not_isQuote rfl rfl hc, not_isSign_of_isNameStart hc, hc, hname, hkeyword,
          hopening, hclosing]
    | callWith hs hc hname hkeyword hopening hclosing hdepth hread =>
        subst hdepth
        simp [hs, not_isQuote rfl rfl hc, not_isSign_of_isNameStart hc, hc, hname, hkeyword,
          hopening, hclosing, hread]

/-- No query starts with a closing parenthesis. -/
theorem eat_closing_of_readTerm {depth : Nat} {s rest : Text} {query : Query}
    (h : readTerm depth s = .ok (query, rest)) : eat ')' s = none := by
  have hfirst : ∃ c s', Text.skipBlank s = c :: s' ∧ c ≠ ')' := by
    cases readTerm_eq_ok_iff.1 h with
    | string hs hc => exact ⟨_, _, hs, Markup.ne_of_kind hc rfl⟩
    | number hs hc =>
        refine ⟨_, _, hs, ?_⟩
        rintro rfl
        cases hc
    | keyword hs hc => exact ⟨_, _, hs, Markup.ne_of_kind hc rfl⟩
    | path hs hc => exact ⟨_, _, hs, Markup.ne_of_kind hc rfl⟩
    | call hs hc => exact ⟨_, _, hs, Markup.ne_of_kind hc rfl⟩
    | callWith hs hc => exact ⟨_, _, hs, Markup.ne_of_kind hc rfl⟩
  obtain ⟨c, s', hs, hne⟩ := hfirst
  cases heat : eat ')' s with
  | none => rfl
  | some t =>
      rw [eat_eq_some_iff.1 heat] at hs
      exact absurd (List.cons.inj hs).1.symm hne

/-! ### Arguments -/

/-- Whatever is read is written, before what is left. -/
def Sound (term : Text → Except Complaint (Query × Text)) : Prop :=
  ∀ {s rest : Text} {query : Query}, term s = .ok (query, rest) →
    ∃ tokens front, Written .free query tokens ∧ Spaced tokens front ∧ s = front ++ rest

/-- A query is read from its tokens, if they and the blanks before them are at most `size` long. -/
def Reads (term : Text → Except Complaint (Query × Text)) (size : Nat) (query : Query)
    (tokens : List Text) : Prop :=
  ∀ {front rest : Text}, Spaced tokens front → front.length ≤ size → Next ends rest →
    term (front ++ rest) = .ok (query, rest)

section Arguments

variable {term : Text → Except Complaint (Query × Text)} {fuel : Nat} {front rest : Text}

/-- **Arguments are read**, each with one unit of fuel. -/
theorem readArguments_append {size : Nat} {arguments : List (Query × List Text)}
    (hne : arguments ≠ [])
    (hreads : ∀ argument ∈ arguments, Reads term size argument.1 argument.2)
    (hfront : Spaced ([[',']].intercalate (arguments.map Prod.snd) ++ [[')']]) front)
    (hsize : front.length ≤ size) (hfuel : front.length ≤ fuel) (rest : Text) :
    readArguments term fuel (front ++ rest) = .ok (arguments.map Prod.fst, rest) := by
  induction arguments generalizing front fuel with
  | nil => exact absurd rfl hne
  | cons argument arguments ih =>
      have hread : Reads term size argument.1 argument.2 := hreads argument (List.mem_cons_self ..)
      cases arguments with
      | nil =>
          rw [List.map_cons, List.map_nil, List.intercalate_singleton] at hfront
          obtain ⟨front₁, front₂, rfl, hfront₁, hfront₂⟩ := hfront.exists_append
          obtain ⟨blanks, rfl, hblanks⟩ := hfront₂.exists_singleton
          simp only [List.length_append, List.length_singleton] at hsize hfuel
          obtain ⟨fuel, rfl⟩ : ∃ fuel', fuel = fuel' + 1 := ⟨fuel - 1, by omega⟩
          have hclosing : front₁ ++ (blanks ++ [')']) ++ rest =
              front₁ ++ (blanks ++ ')' :: rest) := by simp
          have hnext : Next ends (blanks ++ ')' :: rest) := Next.cons hblanks rfl (by decide)
          rw [hclosing, readArguments, hread hfront₁ (by omega) hnext]
          simp only [eat_append hblanks (c := ')') rfl]
          rfl
      | cons argument' arguments =>
          rw [List.map_cons, List.map_cons, List.intercalate_cons_cons, ← List.map_cons,
            List.append_assoc, List.append_assoc] at hfront
          obtain ⟨front₁, front₂, rfl, hfront₁, hfront₂⟩ := hfront.exists_append
          obtain ⟨blanks, front₃, rfl, hblanks, hfront₃⟩ := hfront₂.exists_cons
          simp only [List.length_append, List.length_singleton] at hsize hfuel
          obtain ⟨fuel, rfl⟩ : ∃ fuel', fuel = fuel' + 1 := ⟨fuel - 1, by omega⟩
          have hcomma : front₁ ++ (blanks ++ ([','] ++ front₃)) ++ rest =
              front₁ ++ (blanks ++ ',' :: (front₃ ++ rest)) := by simp
          have hnext : Next ends (blanks ++ ',' :: (front₃ ++ rest)) :=
            Next.cons hblanks rfl (by decide)
          have hnot : Next [','] (blanks ++ ',' :: (front₃ ++ rest)) :=
            Next.cons hblanks rfl (List.mem_singleton_self _)
          have hmore : readArguments term fuel (front₃ ++ rest) =
              .ok ((argument' :: arguments).map Prod.fst, rest) :=
            ih (List.cons_ne_nil _ _)
              (fun argument hmem => hreads argument (List.mem_cons_of_mem _ hmem)) hfront₃
              (by omega) (by omega)
          rw [hcomma, readArguments, hread hfront₁ (by omega) hnext]
          simp only [hnot.eat (c := ')') (by decide), eat_append hblanks (c := ',') rfl, hmore]
          rfl

/-- No argument starts with a closing parenthesis. -/
theorem eat_closing_of_readArguments {depth : Nat} {s : Text} {queries : List Query}
    (h : readArguments (readTerm depth) fuel s = .ok (queries, rest)) : eat ')' s = none := by
  cases fuel with
  | zero => cases h
  | succ fuel =>
      rw [readArguments] at h
      split at h
      · cases h
      · next query s₁ hterm => exact eat_closing_of_readTerm hterm

/-- **What is read as arguments is written as arguments.** -/
theorem exists_arguments_of_readArguments (hsound : Sound term) {s : Text}
    {queries : List Query} (h : readArguments term fuel s = .ok (queries, rest)) :
    ∃ (arguments : List (Query × List Text)) (front : Text), arguments ≠ [] ∧
      arguments.map Prod.fst = queries ∧
      (∀ argument ∈ arguments, Written .free argument.1 argument.2) ∧
      Spaced ([[',']].intercalate (arguments.map Prod.snd) ++ [[')']]) front ∧
        s = front ++ rest := by
  induction fuel generalizing s queries with
  | zero => cases h
  | succ fuel ih =>
      rw [readArguments] at h
      split at h
      · cases h
      · next query s₁ hterm =>
          obtain ⟨tokens, front, hwritten, hfront, rfl⟩ := hsound hterm
          split at h
          · next s₂ hclosing =>
              cases h
              obtain ⟨blanks, hblanks, rfl⟩ := exists_blanks_of_eat hclosing
              refine ⟨[(query, tokens)], front ++ (blanks ++ [')']), List.cons_ne_nil _ _, rfl,
                ?_, ?_, by simp⟩
              · intro argument hmem
                obtain rfl := List.mem_singleton.1 hmem
                exact hwritten
              · rw [List.map_cons, List.map_nil, List.intercalate_singleton]
                exact hfront.append (spaced_singleton hblanks _)
          · split at h
            · cases h
            · next s₂ hcomma =>
                obtain ⟨blanks, hblanks, rfl⟩ := exists_blanks_of_eat hcomma
                split at h
                · cases h
                · next more s₃ hmore =>
                    cases h
                    obtain ⟨arguments, back, hne, rfl, hwrittens, hback, rfl⟩ := ih hmore
                    refine ⟨(query, tokens) :: arguments, front ++ (blanks ++ ([','] ++ back)),
                      List.cons_ne_nil _ _, rfl, ?_, ?_, by simp⟩
                    · intro argument hmem
                      rcases List.mem_cons.1 hmem with rfl | hmem
                      · exact hwritten
                      · exact hwrittens argument hmem
                    · obtain ⟨argument', arguments, rfl⟩ := List.exists_cons_of_ne_nil hne
                      rw [List.map_cons, List.map_cons, List.intercalate_cons_cons, ← List.map_cons,
                        List.append_assoc, List.append_assoc]
                      exact hfront.append (.cons hblanks [','] hback)

end Arguments

/-! ### What is read is written -/

/-- **What is read is written**, however deep its calls nest. -/
theorem sound_readTerm (depth : Nat) : Sound (readTerm depth) := by
  induction depth using Nat.strong_induction_on with
  | h depth ih =>
      intro s rest query h
      cases readTerm_eq_ok_iff.1 h with
      | string hs hc hread =>
          obtain ⟨blanks, hblanks, hsplit⟩ := exists_blanks s
          obtain ⟨body, hbody, rfl⟩ := exists_body_of_readQuoted hread
          rw [hs] at hsplit
          exact ⟨_, _, .constant (.string (.mk hc hbody)), spaced_singleton hblanks _,
            by simp [hsplit]⟩
      | number hs hc hread =>
          obtain ⟨blanks, hblanks, hsplit⟩ := exists_blanks s
          obtain ⟨token, htoken, heq⟩ := exists_token_of_readNumber hc hread
          rw [hs, heq] at hsplit
          exact ⟨_, _, .constant (.number htoken), spaced_singleton hblanks _, by simp [hsplit]⟩
      | keyword hs hc hname hkeyword =>
          obtain ⟨-, blanks, hblanks, rfl⟩ := exists_name_of_readName hs hc hname
          exact ⟨_, _, .constant (constantToken_of_keyword? hkeyword), spaced_singleton hblanks _,
            by simp⟩
      | path hs hc hname hkeyword hopening hread =>
          obtain ⟨hroot, blanks, hblanks, rfl⟩ := exists_name_of_readName hs hc hname
          obtain ⟨steps, front, rfl, hsteps, hfront, rfl⟩ := exists_steps_of_readSteps hread
          exact ⟨_, _, .path hroot (keyword?_eq_none_iff.1 hkeyword) steps hsteps,
            .cons hblanks _ hfront, by simp⟩
      | call hs hc hname hkeyword hopening hclosing =>
          obtain ⟨hhelper, blanks, hblanks, rfl⟩ := exists_name_of_readName hs hc hname
          obtain ⟨blanks', hblanks', rfl⟩ := exists_blanks_of_eat hopening
          obtain ⟨blanks'', hblanks'', rfl⟩ := exists_blanks_of_eat hclosing
          exact ⟨_, _, .call hhelper (keyword?_eq_none_iff.1 hkeyword) [] (by simp),
            .cons hblanks _ (.cons hblanks' _ (spaced_singleton hblanks'' _)), by simp⟩
      | callWith hs hc hname hkeyword hopening hclosing hdepth hread =>
          -- the arguments are read with one level less
          obtain ⟨hhelper, blanks, hblanks, rfl⟩ := exists_name_of_readName hs hc hname
          obtain ⟨blanks', hblanks', rfl⟩ := exists_blanks_of_eat hopening
          have hsound : Sound (readTerm _) :=
            ih _ (Nat.lt_of_lt_of_eq (Nat.lt_succ_self _) hdepth.symm)
          obtain ⟨arguments, front, -, rfl, hwritten, hfront, rfl⟩ :=
            exists_arguments_of_readArguments hsound hread
          exact ⟨_, _, .call hhelper (keyword?_eq_none_iff.1 hkeyword) arguments hwritten,
            .cons hblanks _ (.cons hblanks' _ hfront), by simp⟩

/-! ### What is written is read -/

section Constants

variable {depth size : Nat}

theorem reads_keyword {name : Text} (hname : IsName name) {value : Json.Value}
    (hkeyword : keyword? name = some value) :
    Reads (readTerm depth) size (.constant value) [name] := by
  intro front rest hfront _ hrest
  obtain ⟨blanks, rfl, hblanks⟩ := hfront.exists_singleton
  rw [List.append_assoc]
  obtain ⟨c, s', hs, hc, hread⟩ := readName_of_isName hname hblanks
    (hrest.stop_name (by simp [ends, isNameChar]))
  exact readTerm_eq_ok_iff.2 (.keyword hs hc hread hkeyword)

theorem reads_string {spelling : Spelling} {text token : Text} (h : Quoted spelling text token) :
    Reads (readTerm depth) size (.constant (.string text)) [token] := by
  intro front rest hfront _ hrest
  obtain ⟨blanks, rfl, hblanks⟩ := hfront.exists_singleton
  obtain ⟨hquote, hbody⟩ := h
  have hplain := Markup.stop_cons (not_isBlank_of_isQuote hquote)
  rw [List.append_assoc, List.cons_append, List.append_assoc]
  exact readTerm_eq_ok_iff.2 (.string (skipBlank_append hblanks (hplain _)) hquote
    (readQuoted_body hquote hbody rest))

theorem reads_number {spelling : Spelling} {n : Json.Number} {token : Text}
    (h : NumberToken spelling n token) :
    Reads (readTerm depth) size (.constant (.number n)) [token] := by
  intro front rest hfront _ hrest
  obtain ⟨blanks, rfl, hblanks⟩ := hfront.exists_singleton
  have hread := readNumber_append h
    (hrest.stop not_isBlank_of_isNumberChar (by simp [ends, isNumberChar]))
  obtain ⟨c, t, rfl, hc⟩ := h.exists_cons
  have hplain : Text.isBlank c = false := by
    rcases Bool.or_eq_true _ _ ▸ hc with hdigit | hminus
    · exact not_isBlank_of_isDigit hdigit
    · rw [beq_iff_eq.1 hminus]
      rfl
  rw [List.append_assoc]
  exact readTerm_eq_ok_iff.2
    (.number (skipBlank_append hblanks (Markup.stop_cons hplain _)) hc hread)

end Constants

theorem reads_path {spelling : Spelling} {root : Text} (hroot : IsName root)
    (hkeyword : root ∉ keywords) {steps : List (Step × List Text)}
    (hsteps : ∀ step ∈ steps, StepTokens spelling step.1 step.2) (depth size : Nat) :
    Reads (readTerm depth) size (.path root (steps.map Prod.fst))
      (root :: (steps.map Prod.snd).flatten) := by
  intro front rest hfront _ hrest
  obtain ⟨blanks, back, rfl, hblanks, hback⟩ := hfront.exists_cons
  have hnext := next_steps hsteps hback hrest
  obtain ⟨c, s', hs, hc, hread⟩ := readName_of_isName hroot hblanks
    (hnext.stop_name (by simp [stepEnds, isNameChar]))
  have hfuel : back.length ≤ (back ++ rest).length := by simp
  rw [List.append_assoc, List.append_assoc]
  exact readTerm_eq_ok_iff.2 (.path hs hc hread (keyword?_eq_none_iff.2 hkeyword)
    (hnext.eat (by decide)) (readSteps_append hsteps hback hrest hfuel))

/-- A call is read if its arguments are read with one level less. -/
theorem reads_call {helper : Text} (hhelper : IsName helper) (hkeyword : helper ∉ keywords)
    {arguments : List (Query × List Text)}
    (hreads : ∀ argument ∈ arguments, ∀ depth, Reads (readTerm depth) depth argument.1 argument.2)
    (depth : Nat) :
    Reads (readTerm depth) depth (.call helper (arguments.map Prod.fst))
      (helper :: ['('] :: ([[',']].intercalate (arguments.map Prod.snd) ++ [[')']])) := by
  intro front rest hfront hsize hrest
  obtain ⟨blanks, back, rfl, hblanks, hback⟩ := hfront.exists_cons
  obtain ⟨blanks', back, rfl, hblanks', hback⟩ := hback.exists_cons
  have hopening : Next ['('] (blanks' ++ '(' :: (back ++ rest)) :=
    Next.cons hblanks' rfl (List.mem_singleton_self _)
  obtain ⟨c, s', hs, hc, hread⟩ := readName_of_isName hhelper hblanks
    (hopening.stop_name (by simp [isNameChar]))
  have hparenthesis : eat '(' (blanks' ++ '(' :: (back ++ rest)) = some (back ++ rest) :=
    eat_append hblanks' rfl _
  have hkeyword := keyword?_eq_none_iff.2 hkeyword
  have hsplit : blanks ++ (helper ++ (blanks' ++ (['('] ++ back))) ++ rest =
      blanks ++ (helper ++ (blanks' ++ '(' :: (back ++ rest))) := by simp
  rw [hsplit, readTerm_eq_ok_iff]
  -- the reader looks for a closing parenthesis first, and no argument starts with one
  cases arguments with
  | nil =>
      obtain ⟨blanks'', rfl, hblanks''⟩ := Spaced.exists_singleton hback
      have hclosing : eat ')' (blanks'' ++ [')'] ++ rest) = some rest := by
        rw [List.append_assoc]
        exact eat_append hblanks'' rfl rest
      exact .call hs hc hread hkeyword hparenthesis hclosing
  | cons argument arguments =>
      simp only [List.length_append, List.length_singleton] at hsize
      obtain ⟨depth, rfl⟩ : ∃ depth', depth = depth' + 1 := ⟨depth - 1, by omega⟩
      have hfuel : back.length ≤ (back ++ rest).length + 1 := by
        rw [List.length_append]
        omega
      have harguments := readArguments_append (List.cons_ne_nil argument arguments)
        (fun argument hmem => hreads argument hmem depth) hback (by omega) hfuel rest
      exact .callWith hs hc hread hkeyword hparenthesis (eat_closing_of_readArguments harguments) rfl
        harguments

/-- **What is written is read**, if the calls may nest as deep as the text is long. -/
theorem Written.reads {spelling : Spelling} {query : Query} {tokens : List Text}
    (h : Written spelling query tokens) (depth : Nat) :
    Reads (readTerm depth) depth query tokens := by
  induction h generalizing depth with
  | constant h =>
      cases h with
      | true => exact reads_keyword ⟨⟨'t', rfl, rfl⟩, List.all_eq_true.1 rfl⟩ rfl
      | false => exact reads_keyword ⟨⟨'f', rfl, rfl⟩, List.all_eq_true.1 rfl⟩ rfl
      | null => exact reads_keyword ⟨⟨'n', rfl, rfl⟩, List.all_eq_true.1 rfl⟩ rfl
      | undefined hfree => exact reads_keyword ⟨⟨'u', rfl, rfl⟩, List.all_eq_true.1 rfl⟩ rfl
      | string h => exact reads_string h
      | number h => exact reads_number h
  | path hroot hkeyword steps hsteps => exact reads_path hroot hkeyword hsteps depth depth
  | call hhelper hkeyword arguments _ ih => exact reads_call hhelper hkeyword ih depth

/-! ### Whole texts -/

/-- **A text is a query exactly if tokens of the query spell it.** -/
theorem parse_eq_ok_iff {source : Text} {query : Query} :
    parse source = .ok query ↔ ∃ tokens, Written .free query tokens ∧ Spells tokens source := by
  constructor
  · intro h
    unfold parse at h
    split at h
    · cases h
    · next query' rest hread =>
        split at h
        · next hnil =>
            cases h
            obtain ⟨tokens, front, hwritten, hfront, hsplit⟩ := sound_readTerm _ hread
            obtain ⟨blanks, hblanks, hrest⟩ := exists_blanks rest
            rw [hnil, List.append_nil] at hrest
            exact ⟨tokens, hwritten, front, rest, hsplit, hfront, hrest ▸ hblanks⟩
        · cases h
  · rintro ⟨tokens, hwritten, front, blanks, rfl, hfront, hblanks⟩
    have hread := hwritten.reads (front ++ blanks).length hfront (by simp) (Next.blank hblanks)
    have hnil : Text.skipBlank blanks = [] := by
      simpa using skipBlank_append (s := []) hblanks (by simp)
    rw [parse, hread]
    simp only [hnil]

/-- **Reading follows the grammar.**  Every query that is built from texts, integers of a signed
64-bit word, truth values, the absence of a value, paths and calls has a plain spelling; every text
that spells it plainly, with any blanks around the tokens, is read as that query; and whatever is read
as a query is spelt by tokens of the query, if not plainly. -/
theorem parse_follows_grammar :
    (∀ query, Expressible query ↔ ∃ tokens, Written .plain query tokens) ∧
      (∀ query tokens source, Written .plain query tokens → Spells tokens source →
        parse source = .ok query) ∧
      ∀ source query, parse source = .ok query ↔
        ∃ tokens, Written .free query tokens ∧ Spells tokens source := by
  refine ⟨fun query => exists_written_iff.symm, ?_, fun source query => parse_eq_ok_iff⟩
  intro query tokens source hwritten hsource
  exact parse_eq_ok_iff.2 ⟨tokens, hwritten.free, hsource⟩

/-- A quote in its own kind of quotes, a position with a leading zero, and blanks around tokens. -/
theorem parse_follows_grammar_call :
    parse " f ('\\'' ,a. b[07])".toList =
      .ok (.call ['f'] [.constant (.string ['\'']), .path ['a'] [.key ['b'], .index 7]]) := by
  have hname : ∀ c, isNameStart c = true → IsName [c] := by
    intro c hc
    exact ⟨⟨c, rfl, hc⟩, List.forall_mem_singleton.2 (isNameChar_of_isNameStart hc)⟩
  have hbody : Body .plain '\'' [escaped '\''] ['\\', '\''] := .escape (Or.inl rfl) .nil
  have hstring : Written .plain (.constant (.string ['\''])) [['\'', '\\', '\'', '\'']] :=
    .constant (.string (.mk rfl hbody))
  have hposition : Decimal.value ['0', '7'] < Json.wordLimit := by decide
  have hindex : StepTokens .plain (.index 7) [['['], ['0', '7'], [']']] :=
    .index (List.cons_ne_nil _ _) (List.all_eq_true.1 rfl) hposition
  have hpath : Written .plain (.path ['a'] [.key ['b'], .index 7])
      [['a'], ['.'], ['b'], ['['], ['0', '7'], [']']] :=
    .path (hname 'a' rfl) (by decide)
      [(.key ['b'], [['.'], ['b']]), (.index 7, [['['], ['0', '7'], [']']])]
      (List.forall_mem_cons.2 ⟨.name (hname 'b' rfl), List.forall_mem_singleton.2 hindex⟩)
  have hcall := Written.call (hname 'f' rfl) (by decide) [(_, _), (_, _)]
    (List.forall_mem_cons.2 ⟨hstring, List.forall_mem_singleton.2 hpath⟩)
  have hspace : IsBlank [' '] := List.forall_mem_singleton.2 rfl
  have hnone : IsBlank [] := fun c hc => absurd hc List.not_mem_nil
  have hspaced := Spaced.cons hspace ['f'] (.cons hspace ['('] (.cons hnone ['\'', '\\', '\'', '\'']
    (.cons hspace [','] (.cons hnone ['a'] (.cons hnone ['.'] (.cons hspace ['b']
      (.cons hnone ['['] (.cons hnone ['0', '7'] (.cons hnone [']'] (.cons hnone [')'] .nil))))))))))
  exact parse_follows_grammar.2.1 _ _ _ hcall ⟨_, [], rfl, hspaced, hnone⟩

end SafeTemplate.Query
