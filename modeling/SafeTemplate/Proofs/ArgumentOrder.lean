/-
**The order of options does not matter.**

A command line asks for some flags, gives values to some options, and has positional arguments.  It can
be written in many ways: a flag, or an option together with its value, can stand anywhere between the
other arguments.  Flags and options are taken from the list one after the other, and each search only
passes over arguments that are nothing it looks for.  So what is left after a search is again a way to
write the request, now without what was taken; and when everything is taken, the positional arguments
are left as they were given.

Main definitions:

* `Cli.Flag`, `Cli.Parameter` — what can be asked for, and what a value can be given to;
* `Cli.Request`, `Cli.Request.WrittenAs` — what a command line asks for, and the ways to write it;
* `Cli.Request.host?`, `Cli.Request.settings` — what a request amounts to.

Main results:

* `Cli.Request.WrittenAs.takeVerbose`, `Cli.Request.WrittenAs.takeCheckOnly`,
  `Cli.Request.WrittenAs.takeOption` — a search finds what is asked for, and leaves a way to write the
  rest;
* `Cli.Request.WrittenAs.takeSettings` — the positional arguments are left;
* `Cli.Options.parse_any_order` — **all ways to write a request are read alike**.
-/

import Mathlib.Logic.Function.Basic
import SafeTemplate.Proofs.CommandLine

set_option autoImplicit false

namespace SafeTemplate.Cli

/-! ### Flags and parameters -/

/-- What a command line can ask for. -/
inductive Flag
  | verbose
  | checkOnly
  deriving DecidableEq

/-- How a flag can be written. -/
def Flag.spellings : Flag → List Text
  | .verbose => ["-v".toList, "--verbose".toList]
  | .checkOnly => ["--check-only".toList]

/-- What a command line can give a value to. -/
inductive Parameter
  | root
  | host
  | context
  deriving DecidableEq

/-- The option that gives a value to a parameter. -/
def Parameter.option : Parameter → Text
  | .root => "--root".toList
  | .host => "--target".toList
  | .context => "--context".toList

theorem Flag.isHyphenated_of_mem {flag : Flag} {spelling : Text} (h : spelling ∈ flag.spellings) :
    isHyphenated spelling = true := by
  cases flag with
  | verbose =>
      obtain rfl | rfl : spelling = "-v".toList ∨ spelling = "--verbose".toList := by
        simpa [spellings] using h
      · rfl
      · rfl
  | checkOnly =>
      obtain rfl : spelling = "--check-only".toList := List.mem_singleton.1 h
      rfl

/-- No two flags are written alike. -/
theorem Flag.eq_of_mem {flag flag' : Flag} {spelling : Text} (h : spelling ∈ flag.spellings)
    (h' : spelling ∈ flag'.spellings) : flag = flag' := by
  have hdisjoint : ∀ spelling ∈ Flag.verbose.spellings, spelling ∉ Flag.checkOnly.spellings := by
    decide
  cases flag <;> cases flag'
  · rfl
  · exact absurd h' (hdisjoint spelling h)
  · exact absurd h (hdisjoint spelling h')
  · rfl

theorem Parameter.isHyphenated_option (parameter : Parameter) :
    isHyphenated parameter.option = true := by
  cases parameter <;> rfl

theorem Parameter.option_injective {parameter parameter' : Parameter}
    (h : parameter.option = parameter'.option) : parameter = parameter' := by
  cases parameter <;> cases parameter' <;> first | rfl | exact absurd h (by decide)

/-- No option is written as a flag. -/
theorem Parameter.option_not_mem (parameter : Parameter) (flag : Flag) :
    parameter.option ∉ flag.spellings := by
  cases parameter <;> cases flag <;> decide

theorem takeOption_found (option value : Text) (more : List Text) :
    takeOption option (option :: value :: more) = .ok (some value, more) := by
  rw [takeOption.eq_def]
  exact if_pos rfl

theorem takeOption_skip {option argument : Text} {value? : Option Text} {more rest : List Text}
    (hne : argument ≠ option) (h : takeOption option more = .ok (value?, rest)) :
    takeOption option (argument :: more) = .ok (value?, argument :: rest) := by
  rw [takeOption.eq_def]
  dsimp only
  rw [if_neg hne, h]

/-- What starts with a hyphen is no other argument. -/
theorem ne_of_isHyphenated {argument hyphenated : Text} (h : isHyphenated argument = false)
    (h' : isHyphenated hyphenated = true) : argument ≠ hyphenated := by
  rintro rfl
  exact Bool.false_ne_true (h.symm.trans h')

/-! ### Requests -/

/-- What a command line asks for. -/
structure Request where
  flags : Flag → Bool
  values : Parameter → Option Text
  positional : List Text

namespace Request

/-- The request without a flag. -/
def dropFlag (request : Request) (flag : Flag) : Request :=
  { request with flags := Function.update request.flags flag false }

/-- The request without the value of a parameter. -/
def dropValue (request : Request) (parameter : Parameter) : Request :=
  { request with values := Function.update request.values parameter none }

/-- The ways to write a request.  Each flag and each option stands at most once, an option is followed
by its value, and the positional arguments keep their order. -/
inductive WrittenAs : Request → List Text → Prop
  | nil {request : Request} (hflags : ∀ flag, request.flags flag = false)
      (hvalues : ∀ parameter, request.values parameter = none)
      (hpositional : request.positional = []) : WrittenAs request []
  | flag {request : Request} (flag : Flag) {spelling : Text} {more : List Text}
      (hset : request.flags flag = true) (hspelling : spelling ∈ flag.spellings)
      (hmore : WrittenAs (request.dropFlag flag) more) : WrittenAs request (spelling :: more)
  | option {request : Request} (parameter : Parameter) {value : Text} {more : List Text}
      (hset : request.values parameter = some value) (hvalue : isHyphenated value = false)
      (hmore : WrittenAs (request.dropValue parameter) more) :
      WrittenAs request (parameter.option :: value :: more)
  | positional {request : Request} {argument : Text} {rest more : List Text}
      (hset : request.positional = argument :: rest) (hargument : isHyphenated argument = false)
      (hmore : WrittenAs { request with positional := rest } more) :
      WrittenAs request (argument :: more)

theorem flags_dropFlag_of_ne (request : Request) {flag flag' : Flag} (h : flag' ≠ flag) :
    (request.dropFlag flag).flags flag' = request.flags flag' :=
  Function.update_of_ne h _ _

theorem values_dropValue_of_ne (request : Request) {parameter parameter' : Parameter}
    (h : parameter' ≠ parameter) :
    (request.dropValue parameter).values parameter' = request.values parameter' :=
  Function.update_of_ne h _ _

/-- What a request without a flag still asks for is another flag. -/
theorem of_flags_dropFlag {request : Request} {flag flag' : Flag}
    (h : (request.dropFlag flag).flags flag' = true) : flag' ≠ flag ∧ request.flags flag' = true := by
  have hne : flag' ≠ flag := by
    rintro rfl
    exact Bool.false_ne_true ((Function.update_self ..).symm.trans h)
  exact ⟨hne, (request.flags_dropFlag_of_ne hne).symm.trans h⟩

theorem dropFlag_comm (request : Request) {flag flag' : Flag} (h : flag ≠ flag') :
    (request.dropFlag flag).dropFlag flag' = (request.dropFlag flag').dropFlag flag := by
  have hflags := Function.update_comm h false false request.flags
  simp only [dropFlag, hflags]

theorem dropValue_comm (request : Request) {parameter parameter' : Parameter}
    (h : parameter ≠ parameter') :
    (request.dropValue parameter).dropValue parameter' =
      (request.dropValue parameter').dropValue parameter := by
  have hvalues := Function.update_comm h none none request.values
  simp only [dropValue, hvalues]

theorem dropFlag_of_not {request : Request} {flag : Flag} (h : request.flags flag = false) :
    request.dropFlag flag = request := by
  have hflags : Function.update request.flags flag false = request.flags := by
    rw [← h, Function.update_eq_self]
  simp only [dropFlag, hflags]

theorem dropValue_of_none {request : Request} {parameter : Parameter}
    (h : request.values parameter = none) : request.dropValue parameter = request := by
  have hvalues : Function.update request.values parameter none = request.values := by
    rw [← h, Function.update_eq_self]
  simp only [dropValue, hvalues]

/-! ### Searches -/

namespace WrittenAs

variable {request : Request} {arguments : List Text}

/-- A flag that is written is asked for, and without it the rest of the request is left. -/
theorem erase (h : request.WrittenAs arguments) {flag : Flag} {spelling : Text}
    (hspelling : spelling ∈ flag.spellings) (hmem : spelling ∈ arguments) :
    request.flags flag = true ∧ (request.dropFlag flag).WrittenAs (arguments.erase spelling) := by
  have hhyphen := Flag.isHyphenated_of_mem hspelling
  induction h with
  | nil => cases hmem
  | @flag request flag' spelling' more hset hspelling' hmore ih =>
      by_cases heq : spelling' = spelling
      · subst heq
        obtain rfl := Flag.eq_of_mem hspelling hspelling'
        rw [List.erase_cons_head]
        exact ⟨hset, hmore⟩
      · obtain ⟨hflag, hrest⟩ := ih ((List.mem_cons.1 hmem).resolve_left (Ne.symm heq))
        obtain ⟨hne, hasked⟩ := of_flags_dropFlag hflag
        rw [List.erase_cons_tail (by simpa using heq)]
        refine ⟨hasked, .flag flag' ?_ hspelling' ?_⟩
        · rw [request.flags_dropFlag_of_ne (Ne.symm hne), hset]
        · rw [request.dropFlag_comm hne]
          exact hrest
  | @option request parameter value more hset hvalue hmore ih =>
      have hoption : parameter.option ≠ spelling := by
        rintro rfl
        exact parameter.option_not_mem flag hspelling
      have hother : value ≠ spelling := ne_of_isHyphenated hvalue hhyphen
      have hmem' : spelling ∈ more := by
        simpa [Ne.symm hoption, Ne.symm hother] using hmem
      obtain ⟨hasked, hrest⟩ := ih hmem'
      rw [List.erase_cons_tail (by simpa using hoption), List.erase_cons_tail (by simpa using hother)]
      exact ⟨hasked, .option parameter hset hvalue hrest⟩
  | @positional request argument rest more hset hargument hmore ih =>
      have hother : argument ≠ spelling := ne_of_isHyphenated hargument hhyphen
      obtain ⟨hasked, hrest⟩ := ih ((List.mem_cons.1 hmem).resolve_left (Ne.symm hother))
      rw [List.erase_cons_tail (by simpa using hother)]
      exact ⟨hasked, .positional hset hargument hrest⟩

/-- A flag that is not written is not asked for. -/
theorem flags_eq_false (h : request.WrittenAs arguments) {flag : Flag}
    (hnone : ∀ spelling ∈ flag.spellings, spelling ∉ arguments) : request.flags flag = false := by
  induction h with
  | nil hflags => exact hflags flag
  | @flag request flag' spelling more hset hspelling hmore ih =>
      have hne : flag ≠ flag' := by
        rintro rfl
        exact hnone spelling hspelling List.mem_cons_self
      rw [← request.flags_dropFlag_of_ne hne]
      exact ih fun found hfound hmem => hnone found hfound (List.mem_cons_of_mem _ hmem)
  | option parameter hset hvalue hmore ih =>
      exact ih fun found hfound hmem =>
        hnone found hfound (List.mem_cons_of_mem _ (List.mem_cons_of_mem _ hmem))
  | positional hset hargument hmore ih =>
      exact ih fun found hfound hmem => hnone found hfound (List.mem_cons_of_mem _ hmem)

/-- A search for one spelling of a flag. -/
theorem takeFlag_cases (h : request.WrittenAs arguments) (flag : Flag) (spelling : Text)
    (hspelling : spelling ∈ flag.spellings) :
    (∃ more, takeFlag spelling arguments = (true, more) ∧ request.flags flag = true ∧
        (request.dropFlag flag).WrittenAs more) ∨
      takeFlag spelling arguments = (false, arguments) ∧ spelling ∉ arguments := by
  unfold takeFlag
  by_cases hmem : spelling ∈ arguments
  · rw [List.contains_iff_mem.2 hmem]
    exact .inl ⟨_, rfl, h.erase hspelling hmem⟩
  · rw [List.erase_of_not_mem hmem]
    exact .inr ⟨by simpa using hmem, hmem⟩

/-- **A search for a flag finds it if it is asked for**, in whichever spelling. -/
theorem takeVerbose (h : request.WrittenAs arguments) :
    ∃ more, takeVerbose arguments = (request.flags .verbose, more) ∧
      (request.dropFlag .verbose).WrittenAs more := by
  unfold Cli.takeVerbose
  obtain ⟨more, htake, hflag, hmore⟩ | ⟨hshort, hshortless⟩ :=
    h.takeFlag_cases .verbose "-v".toList (by decide)
  · rw [htake, hflag]
    exact ⟨more, rfl, hmore⟩
  · rw [hshort]
    obtain ⟨more, htake, hflag, hmore⟩ | ⟨hlong, hlongless⟩ :=
      h.takeFlag_cases .verbose "--verbose".toList (by decide)
    · rw [htake, hflag]
      exact ⟨more, rfl, hmore⟩
    · have hunset : request.flags .verbose = false :=
        h.flags_eq_false (List.forall_mem_cons.2 ⟨hshortless, List.forall_mem_singleton.2 hlongless⟩)
      rw [hlong, hunset, dropFlag_of_not hunset]
      exact ⟨arguments, rfl, h⟩

@[inherit_doc takeVerbose]
theorem takeCheckOnly (h : request.WrittenAs arguments) :
    ∃ more, takeFlag "--check-only".toList arguments = (request.flags .checkOnly, more) ∧
      (request.dropFlag .checkOnly).WrittenAs more := by
  obtain ⟨more, htake, hflag, hmore⟩ | ⟨hnone, hflagless⟩ :=
    h.takeFlag_cases .checkOnly "--check-only".toList (by decide)
  · rw [htake, hflag]
    exact ⟨more, rfl, hmore⟩
  · have hunset : request.flags .checkOnly = false :=
      h.flags_eq_false (List.forall_mem_singleton.2 hflagless)
    rw [hnone, hunset, dropFlag_of_not hunset]
    exact ⟨arguments, rfl, h⟩

/-- **A search for an option finds the value that it is given**, and leaves a way to write the rest of
the request. -/
theorem takeOption (h : request.WrittenAs arguments) (parameter : Parameter) :
    ∃ more, takeOption parameter.option arguments = .ok (request.values parameter, more) ∧
      (request.dropValue parameter).WrittenAs more := by
  have hhyphen := parameter.isHyphenated_option
  induction h with
  | @nil request hflags hvalues hpositional =>
      rw [hvalues, dropValue_of_none (hvalues parameter)]
      exact ⟨[], rfl, .nil hflags hvalues hpositional⟩
  | @flag request flag spelling more hset hspelling hmore ih =>
      have hother : spelling ≠ parameter.option := by
        rintro rfl
        exact parameter.option_not_mem flag hspelling
      obtain ⟨rest, htake, hrest⟩ := ih
      exact ⟨spelling :: rest, takeOption_skip hother htake, .flag flag hset hspelling hrest⟩
  | @option request parameter' value more hset hvalue hmore ih =>
      by_cases heq : parameter' = parameter
      · subst heq
        rw [hset]
        exact ⟨more, takeOption_found _ _ _, hmore⟩
      · have hoption : parameter'.option ≠ parameter.option :=
          fun hname => heq (Parameter.option_injective hname)
        have hother : value ≠ parameter.option := ne_of_isHyphenated hvalue hhyphen
        obtain ⟨rest, htake, hrest⟩ := ih
        rw [request.values_dropValue_of_ne (Ne.symm heq)] at htake
        refine ⟨parameter'.option :: value :: rest,
          takeOption_skip hoption (takeOption_skip hother htake), .option parameter' ?_ hvalue ?_⟩
        · rw [request.values_dropValue_of_ne heq, hset]
        · rw [request.dropValue_comm (Ne.symm heq)]
          exact hrest
  | @positional request argument rest more hset hargument hmore ih =>
      have hother : argument ≠ parameter.option := ne_of_isHyphenated hargument hhyphen
      obtain ⟨rest', htake, hrest⟩ := ih
      exact ⟨argument :: rest', takeOption_skip hother htake, .positional hset hargument hrest⟩

/-- A request for nothing else is written as its positional arguments. -/
theorem eq_positional (h : request.WrittenAs arguments) (hflags : ∀ flag, request.flags flag = false)
    (hvalues : ∀ parameter, request.values parameter = none) : arguments = request.positional := by
  induction h with
  | nil _ _ hpositional => exact hpositional.symm
  | flag flag hset => exact absurd hset (by simp [hflags])
  | option parameter hset => exact absurd hset (by simp [hvalues])
  | positional hset hargument hmore ih => rw [hset, ih hflags hvalues]

theorem isHyphenated_positional (h : request.WrittenAs arguments) :
    ∀ argument ∈ request.positional, isHyphenated argument = false := by
  induction h with
  | nil hflags hvalues hpositional => simp [hpositional]
  | flag flag hset hspelling hmore ih => exact ih
  | option parameter hset hvalue hmore ih => exact ih
  | positional hset hargument hmore ih =>
      rw [hset]
      exact List.forall_mem_cons.2 ⟨hargument, ih⟩

end WrittenAs

/-! ### What a request amounts to -/

/-- The host language that a request names, if there is such a language.  None need be named. -/
def host? (request : Request) : Option Host :=
  match request.values .host with
  | none => some .coffeeScript
  | some name => Host.ofName? name

/-- The settings of a request, with what is usual where nothing is asked for. -/
def settings (request : Request) (host : Host) : Settings where
  verbose := request.flags .verbose
  checkOnly := request.flags .checkOnly
  root := (request.values .root).getD ['.']
  host := host
  context := (request.values .context).getD []

section Reading

variable {request : Request} {host : Host} {arguments : List Text}

/-- The host language is taken as any other value is, if there is one of that name. -/
theorem WrittenAs.takeHost (h : request.WrittenAs arguments) (hhost : request.host? = some host) :
    ∃ more, takeHost arguments = .ok (host, more) ∧ (request.dropValue .host).WrittenAs more := by
  obtain ⟨more, htake, hmore⟩ := h.takeOption .host
  refine ⟨more, ?_, hmore⟩
  have htarget : Cli.takeOption "--target".toList arguments = .ok (request.values .host, more) :=
    htake
  rw [Cli.takeHost, htarget]
  unfold host? at hhost
  cases hname : request.values .host with
  | none =>
      rw [hname] at hhost
      cases hhost
      rfl
  | some name =>
      rw [hname] at hhost
      dsimp only at hhost ⊢
      rw [hhost]

/-- **The positional arguments are left** when all flags and options are taken. -/
theorem WrittenAs.takeSettings (h : request.WrittenAs arguments) (hhost : request.host? = some host) :
    takeSettings arguments = .ok (request.settings host, request.positional) := by
  obtain ⟨unverbose, hverbose, hunverbose⟩ := h.takeVerbose
  obtain ⟨unchecked, hcheckOnly, hunchecked⟩ := hunverbose.takeCheckOnly
  obtain ⟨unrooted, hroot, hunrooted⟩ := hunchecked.takeOption .root
  obtain ⟨unhosted, htarget, hunhosted⟩ := hunrooted.takeHost hhost
  obtain ⟨left, hcontext, hleft⟩ := hunhosted.takeOption .context
  have hpositional : left = request.positional := by
    refine hleft.eq_positional ?_ ?_
    · intro flag
      cases flag <;> rfl
    · intro parameter
      cases parameter <;> rfl
  subst hpositional
  -- the names of the options stand in the reader as texts
  have hroot' : Cli.takeOption "--root".toList unchecked = .ok (request.values .root, unrooted) :=
    hroot
  have hcontext' : Cli.takeOption "--context".toList unhosted =
      .ok (request.values .context, request.positional) := hcontext
  simp only [Cli.takeSettings, hverbose, hcheckOnly, hroot', htarget, hcontext']
  rfl

end Reading

end Request

/-- **All ways to write a request are read alike**, if the host language that it names is known: the
flags are set as asked for, the parameters have the values given to them, the first positional argument
is the command, and the others are its arguments. -/
theorem Options.parse_any_order {request : Request} {host : Host} {arguments arguments' : List Text}
    (hhost : request.host? = some host) (h : request.WrittenAs arguments)
    (h' : request.WrittenAs arguments') :
    Options.parse arguments = Options.parse arguments' ∧
      Options.parse arguments = .ok {
        command := request.positional.headD []
        verbose := request.flags .verbose
        checkOnly := request.flags .checkOnly
        root := (request.values .root).getD ['.']
        host := host
        context := (request.values .context).getD []
        arguments := request.positional.drop 1 } := by
  have hread {arguments : List Text} (h : request.WrittenAs arguments) :
      Options.parse arguments = .ok ((request.settings host).toOptions request.positional) := by
    have hnone : (request.positional.drop 1).filter isHyphenated = [] := by
      rw [List.filter_eq_nil_iff]
      intro argument hmem
      simp [h.isHyphenated_positional argument (List.mem_of_mem_drop hmem)]
    rw [Options.parse_eq, h.takeSettings hhost]
    dsimp only
    rw [hnone]
    rfl
  rw [hread h, hread h']
  exact ⟨rfl, rfl⟩

/-- A request with a flag, two values and four positional arguments. -/
def buildRequest : Request where
  flags flag := flag == .verbose
  values
    | .root => some "lib".toList
    | .host => some "js".toList
    | .context => none
  positional := ["build".toList, "in".toList, "out".toList, "k=v".toList]

/-- The flag and the options stand between the positional arguments, or behind them. -/
theorem Options.parse_any_order_build :
    buildRequest.host? = some .javaScript ∧
      Options.parse ["-v".toList, "build".toList, "--root".toList, "lib".toList, "in".toList,
          "--target".toList, "js".toList, "out".toList, "k=v".toList] =
        Options.parse ["build".toList, "in".toList, "out".toList, "k=v".toList, "--root".toList,
          "lib".toList, "--verbose".toList, "--target".toList, "js".toList] ∧
      Options.parse ["-v".toList, "build".toList, "--root".toList, "lib".toList, "in".toList,
          "--target".toList, "js".toList, "out".toList, "k=v".toList] =
        .ok ⟨"build".toList, true, false, "lib".toList, .javaScript, [],
          ["in".toList, "out".toList, "k=v".toList]⟩ := by
  have hhost : buildRequest.host? = some .javaScript := by decide
  have hflags : ∀ flag, ((buildRequest.dropFlag .verbose).flags flag) = false := by
    intro flag
    cases flag <;> rfl
  have hvalues : ∀ parameter,
      ((buildRequest.dropValue .root).dropValue .host).values parameter = none := by
    intro parameter
    cases parameter <;> rfl
  have hbetween : buildRequest.WrittenAs ["-v".toList, "build".toList, "--root".toList, "lib".toList,
      "in".toList, "--target".toList, "js".toList, "out".toList, "k=v".toList] :=
    .flag .verbose rfl (by decide) (.positional rfl rfl
      (.option .root rfl rfl (.positional rfl rfl
        (.option .host rfl rfl (.positional rfl rfl (.positional rfl rfl
          (.nil hflags hvalues rfl)))))))
  have hbehind : buildRequest.WrittenAs ["build".toList, "in".toList, "out".toList, "k=v".toList,
      "--root".toList, "lib".toList, "--verbose".toList, "--target".toList, "js".toList] :=
    .positional rfl rfl (.positional rfl rfl (.positional rfl rfl (.positional rfl rfl
      (.option .root rfl rfl (.flag .verbose rfl (by decide)
        (.option .host rfl rfl (.nil hflags hvalues rfl)))))))
  exact ⟨hhost, Options.parse_any_order hhost hbetween hbehind⟩

end SafeTemplate.Cli
