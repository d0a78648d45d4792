/-
**Integers from the data to the output.**

A JSON integer that a 64-bit word holds is read as itself, in a document and in an override.  Below
`2 ^ 63` it is inserted as its own numeral.  From there on it is rounded to a binary64 number first,
and those are multiples of `2 ^ 11` there: only these come out as they went in, and all integers that
are rounded to the same multiple come out as one text.

Main definitions:

* `upperGap`, `Nearest` — the binary64 number nearest to an integer from `2 ^ 63` on;
* `Json.isNumberPart` — the characters that go on with a numeral;
* `Json.insertedInt` — the integer whose numeral is inserted for another one.

Main results:

* `nearest_roundToDouble`, `Nearest.unique` — rounding finds the nearest multiple, and there is one;
* `Json.readNumber_numeral`, `Json.readValue_signed` — a numeral is read as its integer;
* `Json.insertedInt_eq_self_iff`, `Json.insertedInt_eq_iff` — which integers are inserted as they are,
  and which are inserted as the same one;
* `Project.render_integer` — **an integer from the data to the output**.
-/

import SafeTemplate.Project.Build
import SafeTemplate.Proofs.Substitution

set_option autoImplicit false

namespace SafeTemplate

/-! ### Rounding the upper half of the words -/

/-- The gap between two binary64 numbers that are next to each other, from `2 ^ 63` to `2 ^ 64`. -/
def upperGap : Nat := 0x800

/-- The multiple `r` of the gap is nearest to `n`; if another one is as near, `r` is the even one. -/
structure Nearest (n r : Nat) : Prop where
  multiple : upperGap ∣ r
  closest : ∀ q, upperGap ∣ q → ((r : Int) - n).natAbs ≤ ((q : Int) - n).natAbs
  even : ∀ q, upperGap ∣ q → ((q : Int) - n).natAbs = ((r : Int) - n).natAbs → q ≠ r →
    2 * upperGap ∣ r

/-- No two multiples are nearest. -/
theorem Nearest.unique {n r s : Nat} (hr : Nearest n r) (hs : Nearest n s) : r = s := by
  refine Decidable.byContradiction fun hne => ?_
  have hsame : ((s : Int) - n).natAbs = ((r : Int) - n).natAbs :=
    Nat.le_antisymm (hs.closest r hr.multiple) (hr.closest s hs.multiple)
  have hreven := hr.even s hs.multiple hsame (Ne.symm hne)
  have hseven := hs.even r hr.multiple hsame.symm hne
  -- two even multiples are too far from each other to be as near as the one below `n`
  have hnear := hr.closest (n / upperGap * upperGap) (Nat.dvd_mul_left ..)
  simp only [upperGap] at *
  omega

section Upper

open Json (signedLimit wordLimit)

variable {n : Nat} (hlow : signedLimit ≤ n) (hhigh : n < wordLimit)

include hlow hhigh

/-- How a number of 64 binary digits is rounded to 53. -/
theorem roundToDouble_upper :
    roundToDouble n =
      if upperGap < 2 * (n % upperGap) ∨ 2 * (n % upperGap) = upperGap ∧ n / upperGap % 2 = 1 then
        (n / upperGap + 1) * upperGap
      else n / upperGap * upperGap := by
  have hlog : n.log2 = 63 := by
    refine (Nat.log2_eq_iff ?_).2 ⟨hlow, hhigh⟩
    simp only [signedLimit] at hlow
    omega
  have hlarge : ¬n < 2 * leadingUnit := by
    simp only [signedLimit] at hlow
    simp only [leadingUnit]
    omega
  rw [roundToDouble, if_neg hlarge, hlog]
  rfl

/-- **Rounding finds the nearest multiple of the gap.** -/
theorem nearest_roundToDouble : Nearest n (roundToDouble n) := by
  by_cases hup : upperGap < 2 * (n % upperGap) ∨
      2 * (n % upperGap) = upperGap ∧ n / upperGap % 2 = 1
  · rw [roundToDouble_upper hlow hhigh, if_pos hup]
    refine ⟨Nat.dvd_mul_left .., ?_, ?_⟩ <;> simp only [upperGap] at * <;> intro q hq <;> omega
  · rw [roundToDouble_upper hlow hhigh, if_neg hup]
    refine ⟨Nat.dvd_mul_left .., ?_, ?_⟩ <;> simp only [upperGap] at * <;> intro q hq <;> omega

end Upper

/-! ### Reading numerals -/

namespace Decimal

/-- A numeral starts with zero only if it is that of zero. -/
theorem head_numeral_ne_zero {n : Nat} (h : 0 < n) : (numeral n).head? ≠ some '0' := by
  induction n using Nat.strongRecOn with
  | ind n ih =>
      by_cases hsmall : n < 10
      · rw [numeral, Nat.toDigits_of_lt_base hsmall]
        intro hzero
        have hdigit : n.digitChar = '0' := by simpa using hzero
        have hcode := Nat.toNat_digitChar_of_lt_ten hsmall
        rw [hdigit] at hcode
        have hplain : '0'.toNat = 48 := rfl
        omega
      · have hfront := ih (n / 10) (by omega) (by omega)
        rw [numeral, Nat.toDigits_of_base_le (by omega) (by omega)]
        cases hdigits : Nat.toDigits 10 (n / 10) with
        | nil => exact absurd hdigits Nat.toDigits_ne_nil
        | cons c more =>
            rw [numeral, hdigits] at hfront
            simpa using hfront

theorem signed_injective {m n : Int} (h : signed m = signed n) : m = n := by
  have hminus : ∀ {k : Nat}, '-' ∉ numeral k := fun hmem => by
    have hdigit := isDigit_of_mem_numeral hmem
    revert hdigit
    decide
  unfold signed at h
  split at h <;> split at h
  · have hsame := numeral_injective (List.cons.inj h).2
    omega
  · exact absurd (h ▸ List.mem_cons_self ..) hminus
  · exact absurd (h.symm ▸ List.mem_cons_self ..) hminus
  · have hsame := numeral_injective h
    omega

@[simp] theorem signed_natCast (n : Nat) : signed n = numeral n := by
  rw [signed, if_neg (by omega), Int.natAbs_natCast]

end Decimal

namespace Json

open Decimal

theorem le_ofDigitChars (digits : Text) (n : Nat) : n ≤ Nat.ofDigitChars 10 digits n := by
  induction digits generalizing n with
  | nil => exact Nat.le_refl n
  | cons c digits ih =>
      have hmore := ih (10 * n + (c.toNat - '0'.toNat))
      rw [Nat.ofDigitChars_cons]
      omega

/-- Digits whose number stays below the limit are all taken. -/
theorem absorb_digits {limit : Nat} {digits rest : Text} (hdigits : ∀ c ∈ digits, c.isDigit = true)
    (hrest : startsWithDigit rest = false) {n : Nat} (h : Nat.ofDigitChars 10 digits n < limit) :
    absorb limit n (digits ++ rest) = (Nat.ofDigitChars 10 digits n, rest) := by
  induction digits generalizing n with
  | nil =>
      cases rest with
      | nil => rfl
      | cons c rest =>
          have hc : ¬c.isDigit = true := by simpa [startsWithDigit] using hrest
          rw [List.nil_append, absorb, if_neg (fun hand => hc hand.1), Nat.ofDigitChars_nil]
  | cons c digits ih =>
      obtain ⟨hc, hmore⟩ := List.forall_mem_cons.1 hdigits
      rw [Nat.ofDigitChars_cons, Nat.mul_comm] at h ⊢
      have hfits : n * 10 + digitValue c < limit := Nat.lt_of_le_of_lt (le_ofDigitChars digits _) h
      rw [List.cons_append, absorb, if_pos ⟨hc, hfits⟩]
      exact ih hmore h

/-- The characters that go on with a number after its first digits. -/
def isNumberPart (c : Char) : Bool :=
  c.isDigit || c == '.' || c == 'e' || c == 'E'

section Reading

variable {rest : Text} (hrest : ∀ c ∈ rest.head?, isNumberPart c = false)

include hrest

theorem readTail_of_apart (negative : Bool) (n : Nat) :
    readTail negative n rest = .ok (wholeNumber negative n, rest) := by
  cases rest with
  | nil => rfl
  | cons c rest =>
      have hc : ((c.isDigit = false ∧ c ≠ '.') ∧ c ≠ 'e') ∧ c ≠ 'E' := by
        simpa [isNumberPart] using hrest c rfl
      obtain ⟨⟨⟨hdigit, hpoint⟩, hlower⟩, hupper⟩ := hc
      simp [readTail, dropDigits, hdigit, hpoint, hlower, hupper]

theorem not_startsWithDigit_of_apart : startsWithDigit rest = false := by
  cases rest with
  | nil => rfl
  | cons c rest =>
      have hc := hrest c rfl
      simp only [isNumberPart, Bool.or_eq_false_iff] at hc
      exact hc.1.1.1

/-- **A numeral is read as its number**, if nothing behind it goes on with it. -/
theorem readNumber_numeral {n : Nat} (h : n < wordLimit) (negative : Bool) :
    readNumber negative (numeral n ++ rest) = .ok (wholeNumber negative n, rest) := by
  have hend := not_startsWithDigit_of_apart hrest
  by_cases hzero : n = 0
  · subst hzero
    have hnumeral : numeral 0 ++ rest = '0' :: rest := rfl
    rw [hnumeral, readNumber, if_neg (by simp [hend])]
    exact readTail_of_apart hrest negative 0
  · have hhead := head_numeral_ne_zero (Nat.pos_of_ne_zero hzero)
    have hdigits : ∀ c ∈ numeral n, c.isDigit = true := fun c hc => isDigit_of_mem_numeral hc
    have hvalue := value_numeral n
    cases hnumeral : numeral n with
    | nil => exact absurd hnumeral Nat.toDigits_ne_nil
    | cons c digits =>
        rw [hnumeral] at hhead hdigits hvalue
        obtain ⟨hc, hmore⟩ := List.forall_mem_cons.1 hdigits
        have hnumber : Nat.ofDigitChars 10 digits (digitValue c) = n := by
          rw [value, Nat.ofDigitChars_cons, Nat.mul_zero, Nat.zero_add] at hvalue
          exact hvalue
        have habsorb : absorb wordLimit (digitValue c) (digits ++ rest) = (n, rest) := by
          have htaken := absorb_digits hmore hend (hnumber.symm ▸ h)
          rwa [hnumber] at htaken
        rw [List.cons_append, readNumber, if_neg (by simp [hc]), habsorb]
        · exact readTail_of_apart hrest negative n
        · rintro rfl
          exact hhead rfl

end Reading

theorem readValue_of_digit {c : Char} (hc : c.isDigit = true) (depth : Nat) (s : Text) :
    readValue depth (c :: s) = readNumeric false (c :: s) := by
  have hspace : skipSpace (c :: s) = c :: s := by
    refine List.dropWhile_cons_of_neg fun hblank => ?_
    simp only [isSpace, Bool.or_eq_true, beq_iff_eq] at hblank
    obtain ((rfl | rfl) | rfl) | rfl := hblank <;> revert hc <;> decide
  unfold readValue
  rw [hspace]
  split <;> rename_i heq <;> cases heq
  case h_9 => rw [if_pos hc]
  all_goals exact absurd hc (by decide)

section Integers

variable {n : Int} (hlow : -(signedLimit : Int) ≤ n) (hhigh : n < wordLimit)

include hlow hhigh

/-- **A signed numeral is read as its integer**, wherever it stands in a document. -/
theorem readValue_signed (depth : Nat) {rest : Text}
    (hrest : ∀ c ∈ rest.head?, isNumberPart c = false) :
    readValue depth (signed n ++ rest) = .ok (.number (.int n), rest) := by
  have hword : n.natAbs < wordLimit := by
    simp only [signedLimit, wordLimit] at *
    omega
  by_cases hnegative : n < 0
  · have hwhole : wholeNumber true n.natAbs = .int n := by
      have hfits : ¬(n.natAbs = 0 ∨ signedLimit < n.natAbs) := by omega
      have hback : -(n.natAbs : Int) = n := by omega
      rw [wholeNumber, if_neg (by simp), if_neg hfits, hback]
    have hminus : signed n ++ rest = '-' :: (numeral n.natAbs ++ rest) := by
      rw [signed, if_pos hnegative, List.cons_append]
    have hread : readValue depth (signed n ++ rest) = readNumeric true (numeral n.natAbs ++ rest) := by
      rw [hminus]
      unfold readValue
      rfl
    rw [hread, readNumeric, readNumber_numeral hrest hword, hwhole]
  · have hwhole : wholeNumber false n.natAbs = .int n := by
      have hback : (n.natAbs : Int) = n := by omega
      rw [wholeNumber, if_pos (by simp), hback]
    have hread : readValue depth (signed n ++ rest) = readNumeric false (numeral n.natAbs ++ rest) := by
      rw [signed, if_neg hnegative]
      cases hnumeral : numeral n.natAbs with
      | nil => exact absurd hnumeral Nat.toDigits_ne_nil
      | cons c digits =>
          have hc : c.isDigit = true := isDigit_of_mem_numeral (hnumeral ▸ List.mem_cons_self ..)
          exact readValue_of_digit hc depth (digits ++ rest)
    rw [hread, readNumeric, readNumber_numeral hrest hword, hwhole]

theorem parse_signed : parse (signed n) = .ok (.number (.int n)) := by
  have hread := @readValue_signed n hlow hhigh nestingLimit [] (by simp)
  rw [List.append_nil] at hread
  rw [parse, hread]
  rfl

end Integers

/-! ### Integers as plain text -/

/-- The integer whose numeral is inserted for the integer `n`. -/
def insertedInt (n : Int) : Int :=
  if n < signedLimit then n else roundToDouble n.toNat

theorem plain_int (n : Int) : (Value.number (.int n)).plain = signed (insertedInt n) := by
  rw [Value.plain, Number.plain, plainInt, insertedInt]
  split
  · rfl
  · rw [signed_natCast]

theorem insertedInt_of_lt {n : Int} (h : n < signedLimit) : insertedInt n = n :=
  if_pos h

/-- Above the signed words the nearest multiple of the gap is inserted. -/
theorem insertedInt_upper {n : Int} (hlow : signedLimit ≤ n) (hhigh : n < wordLimit) :
    ∃ r : Nat, insertedInt n = r ∧ signedLimit ≤ r ∧ Nearest n.toNat r := by
  have hnearest := nearest_roundToDouble (n := n.toNat) (by omega) (by omega)
  refine ⟨roundToDouble n.toNat, if_neg (by omega), ?_, hnearest⟩
  -- the least integer up here is a multiple itself
  have hclosest := hnearest.closest signedLimit ⟨0x10000000000000, rfl⟩
  omega

/-- **The integers that are inserted as they are.** -/
theorem insertedInt_eq_self_iff {n : Int} (hhigh : n < wordLimit) :
    insertedInt n = n ↔ n < signedLimit ∨ (upperGap : Int) ∣ n := by
  by_cases hlower : n < signedLimit
  · exact ⟨fun _ => .inl hlower, fun _ => insertedInt_of_lt hlower⟩
  · obtain ⟨r, hr, -, hnearest⟩ := insertedInt_upper (by omega) hhigh
    rw [hr]
    constructor
    · intro h
      exact .inr (h ▸ Int.natCast_dvd_natCast.2 hnearest.multiple)
    · rintro (h | h)
      · exact absurd h hlower
      · have hmultiple : upperGap ∣ n.toNat := by
          simp only [upperGap, signedLimit] at *
          omega
        have hclosest := hnearest.closest n.toNat hmultiple
        omega

/-- **The integers that are inserted as the same one.** -/
theorem insertedInt_eq_iff {m n : Int} (hm : m < wordLimit) (hn : n < wordLimit) :
    insertedInt m = insertedInt n ↔
      m = n ∨ signedLimit ≤ m ∧ signedLimit ≤ n ∧ ∃ r, Nearest m.toNat r ∧ Nearest n.toNat r := by
  by_cases hmlow : m < signedLimit <;> by_cases hnlow : n < signedLimit
  · rw [insertedInt_of_lt hmlow, insertedInt_of_lt hnlow]
    exact ⟨.inl, fun h => h.resolve_right fun hupper => by omega⟩
  · obtain ⟨r, hr, hlarge, -⟩ := insertedInt_upper (by omega) hn
    rw [insertedInt_of_lt hmlow, hr]
    omega
  · obtain ⟨r, hr, hlarge, -⟩ := insertedInt_upper (by omega) hm
    rw [insertedInt_of_lt hnlow, hr]
    omega
  · obtain ⟨r, hr, -, hnearest⟩ := insertedInt_upper (by omega) hm
    obtain ⟨r', hr', -, hnearest'⟩ := insertedInt_upper (by omega) hn
    constructor
    · intro h
      have hsame : r = r' := by omega
      exact .inr ⟨by omega, by omega, r, hnearest, hsame ▸ hnearest'⟩
    · rintro (rfl | ⟨-, -, s, hs, hs'⟩)
      · rfl
      · rw [hr, hr', hnearest.unique hs, hnearest'.unique hs']

end Json

/-! ### From the data to the output -/

namespace Project

open Block (closing)
open Json (signedLimit wordLimit)
open Decimal (signed)

theorem overrideValue_signed {n : Int} (hlow : -(signedLimit : Int) ≤ n) (hhigh : n < wordLimit) :
    overrideValue (signed n) = .number (.int n) := by
  rw [overrideValue, Json.parse_signed hlow hhigh]

/-- A block for a value alone inserts it as plain text. -/
theorem render_value (project : Project) (disk : Disk) (levels : Nat) {body : Text} (hne : body ≠ [])
    (hbody : ¬closing <:+: body) {value : Json.Value}
    (hvalue : valueOf (project.evaluate disk levels) body = some (.ok value)) :
    project.render disk levels ("<%=".toList ++ (body ++ "%>".toList)) = some (.ok value.plain) := by
  have hblock : Block.Writable ⟨.value, body⟩ := ⟨hne, hbody, fun hcode => by cases hcode⟩
  have hrender := project.render_written disk levels (s := []) (by decide) hblock []
  have hwritten : [] ++ ((Block.mk .value body).written ++ []) =
      "<%=".toList ++ (body ++ "%>".toList) := by
    simp [Block.written, Block.opening, Block.Mode.sign]
    rfl
  rw [hwritten, insert, hvalue, render_nil] at hrender
  rw [hrender]
  exact congrArg (fun s => some (Except.ok s)) (List.append_nil _)

/-- **An integer from the data to the output.**  Every integer of a 64-bit word is read as itself, in
a document and in an override.  A block for it inserts its own numeral exactly if it is less than
`2 ^ 63` or a multiple of `2 ^ 11`.  The numeral of the nearest such multiple is inserted otherwise, so
two integers are inserted as the same text exactly if they are the same or have the same nearest
multiple. -/
theorem render_integer {n : Int} (hlow : -(signedLimit : Int) ≤ n) (hhigh : n < wordLimit) :
    (∀ depth rest, (∀ c ∈ rest.head?, Json.isNumberPart c = false) →
        Json.readValue depth (signed n ++ rest) = .ok (.number (.int n), rest)) ∧
      overrideValue (signed n) = .number (.int n) ∧
      (∀ (project : Project) (disk : Disk) (levels : Nat) (body : Text), body ≠ [] →
        ¬closing <:+: body →
        valueOf (project.evaluate disk levels) body = some (.ok (.number (.int n))) →
          (project.render disk levels ("<%=".toList ++ (body ++ "%>".toList)) =
              some (.ok (signed n)) ↔
            n < signedLimit ∨ (upperGap : Int) ∣ n) ∧
          (signedLimit ≤ n → ∃ r, Nearest n.toNat r ∧
            project.render disk levels ("<%=".toList ++ (body ++ "%>".toList)) =
              some (.ok (Decimal.numeral r)))) ∧
      ((Json.Value.number (.int n)).plain = signed n ↔
        n < signedLimit ∨ (upperGap : Int) ∣ n) ∧
      ∀ m : Int, m < wordLimit →
        ((Json.Value.number (.int m)).plain = (Json.Value.number (.int n)).plain ↔
          m = n ∨ signedLimit ≤ m ∧ signedLimit ≤ n ∧
            ∃ r, Nearest m.toNat r ∧ Nearest n.toNat r) := by
  have hexact : (Json.Value.number (.int n)).plain = signed n ↔
      n < signedLimit ∨ (upperGap : Int) ∣ n := by
    rw [Json.plain_int, ← Json.insertedInt_eq_self_iff hhigh]
    exact ⟨Decimal.signed_injective, congrArg signed⟩
  refine ⟨fun depth rest hrest => Json.readValue_signed hlow hhigh depth hrest,
    overrideValue_signed hlow hhigh, ?_, hexact, ?_⟩
  · intro project disk levels body hne hbody hvalue
    rw [project.render_value disk levels hne hbody hvalue, Option.some_inj, Except.ok.injEq]
    refine ⟨hexact, fun hupper => ?_⟩
    obtain ⟨r, hr, -, hnearest⟩ := Json.insertedInt_upper hupper hhigh
    exact ⟨r, hnearest, by rw [Json.plain_int, hr, Decimal.signed_natCast]⟩
  · intro m hm
    rw [Json.plain_int, Json.plain_int, ← Json.insertedInt_eq_iff hm hhigh]
    exact ⟨Decimal.signed_injective, congrArg signed⟩

/-- The largest word and the one before it are inserted as the same text, which is neither's. -/
theorem render_integer_largest :
    let largest : Int := 0xFFFFFFFFFFFFFFFF
    let project : Project := ⟨[(['x'], .number (.int largest))], ['.'], .coffeeScript⟩
    (-(signedLimit : Int) ≤ largest ∧ largest < wordLimit) ∧
      overrideValue (signed largest) = .number (.int largest) ∧
      valueOf (project.evaluate (.blank 0) 0) ['x'] = some (.ok (.number (.int largest))) ∧
      project.render (.blank 0) 0 ("<%=".toList ++ (['x'] ++ "%>".toList)) ≠
        some (.ok (signed largest)) ∧
      (Json.Value.number (.int (largest - 1))).plain = (Json.Value.number (.int largest)).plain := by
  intro largest project
  have hrange : -(signedLimit : Int) ≤ largest ∧ largest < wordLimit := by decide
  have hbody : ¬closing <:+: ['x'] := by decide
  have hvalue : valueOf (project.evaluate (.blank 0) 0) ['x'] =
      some (.ok (.number (.int largest))) := by
    have hquery : Query.parse ['x'] = .ok (.path ['x'] []) := rfl
    rw [valueOf, hquery]
    rfl
  obtain ⟨-, hoverride, hrender, -, hsame⟩ := render_integer hrange.1 hrange.2
  have hexact := (hrender project (.blank 0) 0 ['x'] (by simp) hbody hvalue).1
  refine ⟨hrange, hoverride, hvalue, fun h => absurd (hexact.1 h) (by decide), ?_⟩
  have hlargest : Nearest 0xFFFFFFFFFFFFFFFF 0x10000000000000000 :=
    nearest_roundToDouble (by decide) (by decide)
  have hbefore : Nearest 0xFFFFFFFFFFFFFFFE 0x10000000000000000 :=
    nearest_roundToDouble (by decide) (by decide)
  exact (hsame (largest - 1) (by decide)).2
    (.inr ⟨by decide, by decide, 0x10000000000000000, hbefore, hlargest⟩)

/-- Not every integer of a 64-bit word is inserted as its own numeral. -/
theorem not_plain_integer :
    ¬∀ n : Int, -(signedLimit : Int) ≤ n → n < wordLimit →
      (Json.Value.number (.int n)).plain = signed n := by
  intro h
  have hlargest := h 0xFFFFFFFFFFFFFFFF (by decide) (by decide)
  rw [Json.plain_int] at hlargest
  exact absurd (Decimal.signed_injective hlargest) (by decide)

end Project

end SafeTemplate
