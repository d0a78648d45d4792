/-
**What an imported style sheet becomes.**

Style sheets are put together, expanded, trimmed, freed of empty lines and cut after each LF.  Each
line becomes a string literal with a backslash before each backtick, and a plus sign follows each
literal but the last.  A literal holds no LF itself, so the LFs of the code are the ones between its
lines, and the code can be read back: without the plus signs and the backslashes before backticks,
its lines are the JSON literals of the lines of the sheet.

Main definitions:

* `Host.unguard` — a text without the backslash before each backtick;
* `StyleLines` — how a sheet is cut into lines;
* `IsLiteralOf` — a line of code that holds the literal of a text;
* `DenotesSheet` — code that denotes a sheet, line by line.

Main results:

* `Json.parse_quote` — a string literal is read back as the text it is made from;
* `Host.unguard_guardBackticks` — the backslashes before backticks can be dropped again;
* `Text.lines_styleLines` — the lines of a trimmed sheet without empty lines;
* `Project.denotes_styleLiterals` — the literals of a sheet denote it;
* `Project.callHelper_importCss` — **what is imported denotes the sheets as they are expanded**.
-/

import Mathlib
import SafeTemplate.Proofs.ImportDepth
import SafeTemplate.Proofs.Substitution

set_option autoImplicit false

namespace SafeTemplate

/-! ### JSON literals -/

namespace Json

/-- A character of a string literal stands for itself, or it is written as an escape that is read back
as the character. -/
theorem escapeChar_cases (c : Char) :
    (escapeChar c = [c] ∧ c ≠ '"' ∧ c ≠ '\\' ∧ 0x20 ≤ c.toNat) ∨
      ∃ tail, escapeChar c = '\\' :: tail ∧ '\n' ∉ tail ∧
        ∀ rest, readEscape (tail ++ rest) = .ok (c, rest) := by
  by_cases hq : c = '"'
  · subst hq
    exact .inr ⟨['"'], rfl, by decide, fun _ => rfl⟩
  by_cases hb : c = '\\'
  · subst hb
    exact .inr ⟨['\\'], rfl, by decide, fun _ => rfl⟩
  by_cases hc : 0x20 ≤ c.toNat
  · exact .inl ⟨escapeChar_of_plain hq hb hc, hq, hb, hc⟩
  · right
    obtain ⟨n, hn, rfl⟩ : ∃ n < 0x20, Char.ofNat n = c :=
      ⟨c.toNat, Nat.lt_of_not_le hc, Char.ofNat_toNat c⟩
    interval_cases n <;> exact ⟨_, rfl, by decide, fun _ => rfl⟩

theorem lf_not_mem_escapeChar (c : Char) : '\n' ∉ escapeChar c := by
  rcases escapeChar_cases c with ⟨hescape, -, -, hc⟩ | ⟨tail, hescape, htail, -⟩
  · rw [hescape, List.mem_singleton]
    rintro rfl
    exact absurd hc (by decide)
  · rw [hescape, List.mem_cons]
    exact fun hmem => hmem.elim (by decide) htail

/-- A string literal stands on one line. -/
theorem lf_not_mem_quote (s : Text) : '\n' ∉ quote s := by
  have hescape : '\n' ∉ escape s := by
    intro hmem
    obtain ⟨c, -, hc⟩ := List.mem_flatMap.1 hmem
    exact lf_not_mem_escapeChar c hc
  simp [quote, hescape]

theorem readString_escape_cons (c : Char) {s t rest : Text} (h : readString s = .ok (t, rest)) :
    readString (escapeChar c ++ s) = .ok (c :: t, rest) := by
  rcases escapeChar_cases c with ⟨hescape, hq, hb, hc⟩ | ⟨tail, hescape, -, hread⟩
  · rw [hescape, List.singleton_append, readString.eq_4 c s hq hb, if_neg (Nat.not_lt.2 hc), h]
  · have hread : readEscape (tail ++ s) = .ok (c, s) := hread s
    rw [hescape, List.cons_append, readString]
    split
    · next hstop => cases hstop.symm.trans hread
    · next hfound =>
        obtain ⟨rfl, rfl⟩ := Prod.mk.inj (Except.ok.inj (hfound.symm.trans hread))
        rw [h]

theorem readString_escape (s rest : Text) :
    readString (escape s ++ '"' :: rest) = .ok (s, rest) := by
  induction s with
  | nil => rw [escape, List.flatMap_nil, List.nil_append, readString]
  | cons c s ih =>
      have hsplit : escape (c :: s) ++ '"' :: rest = escapeChar c ++ (escape s ++ '"' :: rest) := by
        simp [escape]
      rw [hsplit]
      exact readString_escape_cons c ih

/-- **A string literal is read back as the text it is made from.** -/
theorem parse_quote (s : Text) : parse (quote s) = .ok (.string s) := by
  have hread : readValue nestingLimit (quote s) = .ok (.string s, []) := by
    rw [readValue, quote, skipSpace, List.dropWhile_cons_of_neg (by decide)]
    simp [readString_escape]
  rw [parse, hread]
  rfl

end Json

/-! ### Backslashes before backticks -/

namespace Host

/-- A text without the backslash right before each backtick. -/
def unguard : Text → Text
  | '\\' :: '`' :: s => '`' :: unguard s
  | c :: s => c :: unguard s
  | [] => []

theorem guardBackticks_cons (c : Char) (s : Text) :
    guardBackticks (c :: s) = guardChar c ++ guardBackticks s := rfl

theorem guardBackticks_append (s t : Text) :
    guardBackticks (s ++ t) = guardBackticks s ++ guardBackticks t :=
  List.flatMap_append

/-- No guarded text starts with a backtick. -/
theorem head?_guardBackticks (s : Text) : (guardBackticks s).head? ≠ some '`' := by
  cases s with
  | nil => simp [guardBackticks]
  | cons c s =>
      rw [guardBackticks_cons, guardChar]
      split
      · simp
      · next hc => simpa using hc

theorem unguard_cons {c : Char} {s : Text} (h : c = '\\' → s.head? ≠ some '`') :
    unguard (c :: s) = c :: unguard s := by
  refine unguard.eq_2 c s ?_
  rintro s' hc rfl
  exact h hc rfl

/-- **The backslashes before the backticks of a text can be dropped again.** -/
theorem unguard_guardBackticks (s : Text) : unguard (guardBackticks s) = s := by
  induction s with
  | nil => rfl
  | cons c s ih =>
      rw [guardBackticks_cons, guardChar]
      split
      · next hc =>
          subst hc
          exact congrArg ('`' :: ·) ih
      · rw [List.singleton_append, unguard_cons fun _ => head?_guardBackticks s, ih]

theorem lf_not_mem_guardBackticks {s : Text} (h : '\n' ∉ s) : '\n' ∉ guardBackticks s := by
  intro hmem
  obtain ⟨c, hc, hguard⟩ := List.mem_flatMap.1 hmem
  unfold guardChar at hguard
  split at hguard
  · exact absurd hguard (by decide)
  · exact h (List.mem_singleton.1 hguard ▸ hc)

end Host

/-! ### The lines of a sheet -/

namespace Text

theorem isBlank_head_of_mem_skipBlank {s : Text} {c : Char} (h : c ∈ (skipBlank s).head?) :
    isBlank c = false := by
  have hhead := List.head?_dropWhile_not isBlank s
  rw [show (s.dropWhile isBlank).head? = some c from h] at hhead
  exact hhead

theorem isBlank_getLast_of_mem_trim {s : Text} {c : Char} (h : c ∈ (trim s).getLast?) :
    isBlank c = false := by
  rw [trim, List.getLast?_reverse] at h
  exact isBlank_head_of_mem_skipBlank h

/-- Trimming at the end keeps the start of what is left. -/
theorem isBlank_head_of_mem_trim {s : Text} {c : Char} (h : c ∈ (trim s).head?) :
    isBlank c = false := by
  refine isBlank_head_of_mem_skipBlank (s := s) ?_
  obtain ⟨blanks, hsuffix⟩ := List.dropWhile_suffix (l := (skipBlank s).reverse) isBlank
  have hsplit : skipBlank s = trim s ++ blanks.reverse := by
    have hreverse := congrArg List.reverse hsuffix
    rw [List.reverse_append, List.reverse_reverse] at hreverse
    exact hreverse.symm
  rw [hsplit, List.head?_append, Option.mem_def.1 h]
  rfl

theorem head?_collapseLineEnds (s : Text) : (collapseLineEnds s).head? = s.head? := by
  fun_induction collapseLineEnds s with
  | case1 s ih => exact ih
  | case2 c s hne ih => rfl
  | case3 => rfl

theorem getLast?_collapseLineEnds (s : Text) : (collapseLineEnds s).getLast? = s.getLast? := by
  fun_induction collapseLineEnds s with
  | case1 s ih => rw [ih, List.getLast?_cons_cons]
  | case2 c s hne ih => rw [List.getLast?_cons, List.getLast?_cons, ih]
  | case3 => rfl

/-- No empty line is left in a text whose line ends are collapsed. -/
theorem lf_lf_not_infix_collapseLineEnds (s : Text) :
    ¬['\n', '\n'] <:+: collapseLineEnds s := by
  fun_induction collapseLineEnds s with
  | case1 s ih => exact ih
  | case2 c s hne ih =>
      rw [List.infix_cons_iff]
      rintro (⟨t, hprefix⟩ | hinfix)
      · obtain ⟨rfl, hrest⟩ := List.cons.inj hprefix
        have hhead : s.head? = some '\n' := by
          rw [← head?_collapseLineEnds, ← hrest]
          rfl
        obtain ⟨s', rfl⟩ := List.head?_eq_some_iff.1 hhead
        exact hne s' rfl rfl
      · exact ih hinfix
  | case3 => decide

end Text

/-- How a sheet is cut into lines: each but the last ends with its only LF, which is not all of it, and
the last one has no LF. -/
inductive StyleLines : List Text → Prop
  | last (text : Text) (h : '\n' ∉ text) : StyleLines [text]
  | line (text : Text) (more : List Text) (hne : text ≠ []) (h : '\n' ∉ text)
      (hmore : StyleLines more) : StyleLines ((text ++ ['\n']) :: more)

namespace StyleLines

/-- A character can be put before the first line. -/
theorem push {c : Char} {line : Text} {more : List Text} (h : StyleLines (line :: more))
    (hc : c ≠ '\n') : StyleLines ((c :: line) :: more) := by
  have hcons : ∀ {text : Text}, '\n' ∉ text → '\n' ∉ c :: text := fun htext hmem =>
    (List.mem_cons.1 hmem).elim (fun heq => hc heq.symm) htext
  cases h with
  | last _ htext => exact .last (c :: line) (hcons htext)
  | line text _ hne htext hmore =>
      exact .line (c :: text) more (List.cons_ne_nil c text) (hcons htext) hmore

theorem ne_nil {lines : List Text} (h : StyleLines lines) : lines ≠ [] := by
  cases h with
  | last text => exact List.cons_ne_nil _ _
  | line text more => exact List.cons_ne_nil _ _

end StyleLines

/-- **The lines of a text** that neither starts nor ends with LF and has no empty line. -/
theorem Text.lines_styleLines {s : Text} (hne : s ≠ []) (hempty : ¬['\n', '\n'] <:+: s)
    (hhead : s.head? ≠ some '\n') (hlast : s.getLast? ≠ some '\n') : StyleLines (lines s) := by
  -- what follows a character is a text of this kind, too, unless it starts with the LF of the line
  match s with
  | [] => exact absurd rfl hne
  | [c] =>
      have hc : c ≠ '\n' := by simpa using hhead
      have hlines : lines [c] = [[c]] := by simp [lines, hc]
      rw [hlines]
      exact .last [c] (by simpa using Ne.symm hc)
  | c :: d :: s =>
      have hc : c ≠ '\n' := by simpa using hhead
      have hlast' : (d :: s).getLast? ≠ some '\n' := by rwa [List.getLast?_cons_cons] at hlast
      have hempty' : ¬['\n', '\n'] <:+: d :: s := fun h =>
        hempty (h.trans (List.suffix_cons c _).isInfix)
      by_cases hd : d = '\n'
      · subst hd
        have hs : s ≠ [] := by
          rintro rfl
          exact hlast' rfl
        have hempty'' : ¬['\n', '\n'] <:+: s := fun h =>
          hempty' (h.trans (List.suffix_cons _ _).isInfix)
        have hhead' : s.head? ≠ some '\n' := by
          intro hlf
          obtain ⟨s', rfl⟩ := List.head?_eq_some_iff.1 hlf
          exact hempty' (List.IsPrefix.isInfix ⟨s', rfl⟩)
        have hlast'' : s.getLast? ≠ some '\n' := by
          obtain ⟨e, s', rfl⟩ := List.exists_cons_of_ne_nil hs
          rwa [List.getLast?_cons_cons] at hlast'
        have hlines : lines (c :: '\n' :: s) = ([c] ++ ['\n']) :: lines s := by simp [lines, hc]
        rw [hlines]
        exact .line [c] _ (by simp) (by simpa using Ne.symm hc)
          (lines_styleLines hs hempty'' hhead' hlast'')
      · have hlines := lines_styleLines (List.cons_ne_nil d s) hempty' (by simpa using hd) hlast'
        rw [lines, if_neg hc]
        split
        · next hnil => exact absurd hnil hlines.ne_nil
        · next line more hsome =>
            rw [hsome] at hlines
            exact hlines.push hc
termination_by s.length

/-! ### Code for a sheet -/

/-- A line of code that is the string literal of a text with a backslash before each backtick, and so
is read back as the text. -/
structure IsLiteralOf (line text : Text) : Prop where
  written : line = Host.guardBackticks (Json.quote text)
  read : Json.parse (Host.unguard line) = .ok (.string text)

/-- Code that denotes a sheet.  Its lines, cut at each LF, end in a plus sign except for the last one;
without it they are the literals of the lines of the sheet.  The code for an empty sheet is the empty
literal. -/
structure DenotesSheet (code sheet : Text) : Prop where
  lines : ∃ (literals : List Text) (literal : Text) (texts : List Text),
    code.splitOn '\n' = literals.map (· ++ " +".toList) ++ [literal] ∧
    List.Forall₂ IsLiteralOf (literals ++ [literal]) texts ∧
    StyleLines texts ∧
    texts.flatten = sheet
  empty : sheet = [] → code = Host.emptyText

theorem isLiteralOf_guardBackticks (text : Text) :
    IsLiteralOf (Host.guardBackticks (Json.quote text)) text where
  written := rfl
  read := by rw [Host.unguard_guardBackticks, Json.parse_quote]

theorem Host.guardBackticks_intercalate (mark : Text) (texts : List Text) :
    guardBackticks (mark.intercalate texts) =
      (guardBackticks mark).intercalate (texts.map guardBackticks) := by
  induction texts with
  | nil => rfl
  | cons text texts ih =>
      cases texts with
      | nil => simp
      | cons next more =>
          rw [List.intercalate_cons_cons, guardBackticks_append, guardBackticks_append, ih]
          exact List.intercalate_cons_cons.symm

/-- The first part of a separator can be seen as the end of each text but the last. -/
theorem Text.intercalate_concat (tail mark : Text) (texts : List Text) (last : Text) :
    (tail ++ mark).intercalate (texts ++ [last]) =
      mark.intercalate (texts.map (· ++ tail) ++ [last]) := by
  induction texts with
  | nil => simp
  | cons text texts ih =>
      cases texts with
      | nil => simp [List.intercalate_cons_cons]
      | cons next more =>
          rw [List.cons_append, List.cons_append, List.intercalate_cons_cons, ← List.cons_append, ih]
          simp [List.intercalate_cons_cons]

/-- The literals of some lines, put together, are cut into the literals again. -/
theorem splitOn_literals (texts : List Text) (last : Text) :
    (Host.guardBackticks (" +\n".toList.intercalate ((texts ++ [last]).map Json.quote))).splitOn '\n' =
      (texts.map fun text => Host.guardBackticks (Json.quote text)).map (· ++ " +".toList) ++
        [Host.guardBackticks (Json.quote last)] := by
  have hmark : Host.guardBackticks " +\n".toList = " +".toList ++ ['\n'] := by decide
  have hliteral : ∀ text, '\n' ∉ Host.guardBackticks (Json.quote text) := fun text =>
    Host.lf_not_mem_guardBackticks (Json.lf_not_mem_quote text)
  have hmap : (((texts ++ [last]).map Json.quote).map Host.guardBackticks) =
      (texts.map fun text => Host.guardBackticks (Json.quote text)) ++
        [Host.guardBackticks (Json.quote last)] := by
    simp
  rw [Host.guardBackticks_intercalate, hmark, hmap, Text.intercalate_concat]
  refine List.splitOn_intercalate '\n' ?_ (List.concat_ne_nil _ _)
  intro line hline
  simp only [List.mem_append, List.mem_map, List.mem_singleton] at hline
  rcases hline with ⟨literal, ⟨text, -, rfl⟩, rfl⟩ | rfl
  · simpa using hliteral text
  · exact hliteral last

/-- The literals of the lines of a sheet denote it. -/
theorem denotes_literals {texts : List Text} (h : StyleLines texts) :
    DenotesSheet (Host.guardBackticks (" +\n".toList.intercalate (texts.map Json.quote)))
      texts.flatten where
  lines := by
    obtain ⟨init, last, rfl⟩ := (List.eq_nil_or_concat' texts).resolve_left h.ne_nil
    refine ⟨_, _, init ++ [last], splitOn_literals init last, ?_, h, rfl⟩
    have hliterals : (init.map fun text => Host.guardBackticks (Json.quote text)) ++
        [Host.guardBackticks (Json.quote last)] =
          (init ++ [last]).map fun text => Host.guardBackticks (Json.quote text) := by
      simp
    rw [hliterals, List.forall₂_map_left_iff]
    exact List.forall₂_same.2 fun text _ => isLiteralOf_guardBackticks text
  empty := by
    intro hflatten
    cases h with
    | last text htext =>
        obtain rfl : text = [] := by simpa using hflatten
        rfl
    | line text more hne htext hmore => simp at hflatten

namespace Project

open Block (opening closing)

/-- **The literals of a sheet denote it**, trimmed and freed of empty lines. -/
theorem denotes_styleLiterals (sheet : Text) :
    DenotesSheet (styleLiterals sheet) (Text.collapseLineEnds (Text.trim sheet)) := by
  have hlf : Text.isBlank '\n' = true := by decide
  have hhead : (Text.collapseLineEnds (Text.trim sheet)).head? ≠ some '\n' := by
    rw [Text.head?_collapseLineEnds]
    exact fun h => Bool.false_ne_true ((Text.isBlank_head_of_mem_trim h).symm.trans hlf)
  have hlast : (Text.collapseLineEnds (Text.trim sheet)).getLast? ≠ some '\n' := by
    rw [Text.getLast?_collapseLineEnds]
    exact fun h => Bool.false_ne_true ((Text.isBlank_getLast_of_mem_trim h).symm.trans hlf)
  have hempty := Text.lf_lf_not_infix_collapseLineEnds (Text.trim sheet)
  rw [styleLiterals]
  generalize Text.collapseLineEnds (Text.trim sheet) = lined at hhead hlast hempty ⊢
  have hflatten := Text.flatten_lines lined
  split
  · next hnil =>
      rw [← hflatten, hnil]
      exact denotes_literals (.last [] List.not_mem_nil)
  · next hne =>
      have hlined : lined ≠ [] := by
        rintro rfl
        exact hne rfl
      have hdenotes := denotes_literals (Text.lines_styleLines hlined hempty hhead hlast)
      rwa [hflatten] at hdenotes

/-- The files that a helper reads, put together. -/
theorem exists_files_of_readAll {disk : Disk} {paths : List Text} {source : Text}
    (h : readAll disk paths = .ok source) :
    ∃ files, List.Forall₂ (fun path file => readText disk path = .ok file) paths files ∧
      files.flatten = source := by
  induction paths generalizing source with
  | nil =>
      cases h
      exact ⟨[], .nil, rfl⟩
  | cons path more ih =>
      rw [readAll] at h
      split at h
      · cases h
      · next file hfile =>
          split at h
          · cases h
          · next rest hrest =>
              cases h
              obtain ⟨files, hfiles, rfl⟩ := ih hrest
              exact ⟨file :: files, .cons hfile hfiles, rfl⟩

theorem someTexts_map_string (helper : Helper) {names names' : List Text}
    (h : someTexts helper (names.map .string) = .ok names') : names' = names := by
  have htexts : ∀ names : List Text, texts helper (names.map .string) = .ok names := by
    intro names
    induction names with
    | nil => rfl
    | cons name names ih => rw [List.map_cons, texts, ih]
  unfold someTexts at h
  split at h
  · cases h
  · exact (Except.ok.inj ((htexts names).symm.trans h)).symm

/-- The style sheets that an import names are put together and expanded. -/
theorem callHelper_importCss_eq (project : Project) (disk : Disk) (levels : Nat)
    (arguments : List Json.Value) :
    project.callHelper disk levels Helper.importCss.name arguments = do
      let names ← liftM (someTexts .importCss arguments)
      return .string (← project.importStyles disk (project.expand disk levels) names) := by
  rw [callHelper, call, Helper.ofName?_name]
  simp only [bind_pure_comp]

/-- **What is imported denotes the sheets as they are expanded.** -/
theorem callHelper_importCss (project : Project) (disk : Disk) (levels : Nat) {names : List Text}
    {value : Json.Value}
    (h : project.callHelper disk levels Helper.importCss.name (names.map .string) =
      some (.ok value)) :
    ∃ (files : List Text) (sheet code : Text),
      List.Forall₂ (fun name file => readText disk (project.stylePath name) = .ok file)
        names files ∧
      project.render disk levels files.flatten = some (.ok sheet) ∧
      value = .string code ∧
      DenotesSheet code (Text.collapseLineEnds (Text.trim sheet)) := by
  rw [callHelper_importCss_eq] at h
  obtain ⟨names', hnames, himport⟩ := Attempt.bind_eq_ok_iff.1 h
  obtain rfl := someTexts_map_string .importCss (Attempt.lift_eq_ok_iff.1 hnames)
  obtain ⟨code, hcode, hvalue⟩ := Attempt.bind_eq_ok_iff.1 himport
  obtain ⟨source, hsource, hrest⟩ := Attempt.bind_eq_ok_iff.1 hcode
  obtain ⟨sheet, hsheet, hliterals⟩ := Attempt.bind_eq_ok_iff.1 hrest
  obtain ⟨files, hfiles, rfl⟩ := exists_files_of_readAll (Attempt.lift_eq_ok_iff.1 hsource)
  cases hvalue
  cases hliterals
  exact ⟨files, sheet, styleLiterals sheet, List.forall₂_map_left_iff.1 hfiles,
    render_of_expand hsheet, rfl, denotes_styleLiterals sheet⟩

/-- A sheet with a block and an empty line, and one with a backtick behind a backslash. -/
def twoSheets : Disk :=
  ⟨[([], .directory ["src".toList] 0), (["src".toList], .directory ["css".toList] 0),
    (["src".toList, "css".toList], .directory ["a.css".toList, "b.css".toList] 0),
    (["src".toList, "css".toList, "a.css".toList],
      .file (Utf8.encode "\np:\n\n<%= x %>\n".toList) 0),
    (["src".toList, "css".toList, "b.css".toList], .file (Utf8.encode "\\`\t ".toList) 0)], [], 0⟩

/-- The data that the block reads. -/
def twoSheetsProject : Project :=
  ⟨[(['x'], .string "1".toList)], ['.'], .coffeeScript⟩

theorem callHelper_importCss_twoSheets :
    twoSheetsProject.callHelper twoSheets 1 Helper.importCss.name
        (["a".toList, "b".toList].map .string) =
      some (.ok (.string "\"p:\\n\" +\n\"1\\n\" +\n\"\\\\\\`\"".toList)) ∧
    ∃ (files : List Text) (sheet code : Text),
      List.Forall₂ (fun name file => readText twoSheets (twoSheetsProject.stylePath name) = .ok file)
        ["a".toList, "b".toList] files ∧
      twoSheetsProject.render twoSheets 1 files.flatten = some (.ok sheet) ∧
      Json.Value.string "\"p:\\n\" +\n\"1\\n\" +\n\"\\\\\\`\"".toList = .string code ∧
      DenotesSheet code (Text.collapseLineEnds (Text.trim sheet)) := by
  have hfirst : readText twoSheets "./src/css/a.css".toList = .ok "\np:\n\n<%= x %>\n".toList := by
    have hbytes : twoSheets.readBytes "./src/css/a.css".toList =
        .ok (Utf8.encode "\np:\n\n<%= x %>\n".toList) := rfl
    rw [readText, Disk.readText_of_readBytes hbytes]
    rfl
  have hsecond : readText twoSheets "./src/css/b.css".toList = .ok "\\`\t ".toList := by
    have hbytes : twoSheets.readBytes "./src/css/b.css".toList =
        .ok (Utf8.encode "\\`\t ".toList) := rfl
    rw [readText, Disk.readText_of_readBytes hbytes]
    rfl
  have hfiles : readAll twoSheets (["a".toList, "b".toList].map twoSheetsProject.stylePath) =
      .ok "\np:\n\n<%= x %>\n\\`\t ".toList := by
    have hpaths : ["a".toList, "b".toList].map twoSheetsProject.stylePath =
        ["./src/css/a.css".toList, "./src/css/b.css".toList] := by decide
    rw [hpaths, readAll, hfirst, readAll, hsecond]
    rfl
  have hsheet : twoSheetsProject.expand twoSheets 1 "\np:\n\n<%= x %>\n\\`\t ".toList =
      some (.ok "\np:\n\n1\n\\`\t ".toList) := by
    have hrest : twoSheetsProject.expand twoSheets 1 "\n\\`\t ".toList =
        some (.ok "\n\\`\t ".toList) := by
      refine Block.substitute_of_not_closing fun after hsuffix hclosing => ?_
      have hnone : ¬closing <:+: "\n\\`\t ".toList := by decide
      exact hnone (hclosing.trans ((List.suffix_append opening after).trans hsuffix).isInfix)
    have hplain : ¬opening <:+: "\np:\n\n".toList := by decide
    have hblock : Block.Writable ⟨.value, " x ".toList⟩ :=
      ⟨by decide, by decide, fun hcode => by cases hcode⟩
    have hexpand := twoSheetsProject.render_written twoSheets 0 hplain hblock "\n\\`\t ".toList
    rw [render, render, hrest] at hexpand
    exact hexpand
  have hcall : twoSheetsProject.callHelper twoSheets 1 Helper.importCss.name
        (["a".toList, "b".toList].map .string) =
      some (.ok (.string "\"p:\\n\" +\n\"1\\n\" +\n\"\\\\\\`\"".toList)) := by
    have hnames : someTexts .importCss (["a".toList, "b".toList].map .string) =
        .ok ["a".toList, "b".toList] := rfl
    have hcode : styleLiterals "\np:\n\n1\n\\`\t ".toList =
      "\"p:\\n\" +\n\"1\\n\" +\n\"\\\\\\`\"".toList := by decide
    have himport : twoSheetsProject.importStyles twoSheets (twoSheetsProject.expand twoSheets 1)
        ["a".toList, "b".toList] =
          some (.ok "\"p:\\n\" +\n\"1\\n\" +\n\"\\\\\\`\"".toList) := by
      rw [importStyles, hfiles, Attempt.lift_ok_bind, hsheet, ← hcode]
      rfl
    rw [callHelper_importCss_eq, hnames, Attempt.lift_ok_bind, himport]
    rfl
  exact ⟨hcall, callHelper_importCss _ _ _ hcall⟩

end Project

end SafeTemplate
