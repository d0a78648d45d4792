/-
**How a build may end.**

A build ends with a value or with a fault.  It does not end if the files of the project import each
other without end, so what imports files is computed within a number of levels, and has no result if
these do not suffice.

Main definitions:

* `Project.Fault`, `Project.Fault.message`, `Project.Fault.missing?` — why a build fails;
* `Project.Attempt` — a computation that may fail, and may have no result.
-/

import SafeTemplate.Files.Disk
import SafeTemplate.Json.Fault
import SafeTemplate.Project.Helper
import SafeTemplate.Query.Basic
import SafeTemplate.Template.Rejection

set_option autoImplicit false

namespace SafeTemplate.Project

/-- Why a build fails. -/
inductive Fault
  /-- A file or directory cannot be read. -/
  | unreadable (path : Text) (cause : Disk.Fault)
  /-- A file cannot be written. -/
  | unwritable (path : Text) (cause : Disk.Fault)
  /-- A file is no JSON document. -/
  | invalidJson (path : Text) (cause : Json.Fault)
  /-- A template is rejected. -/
  | rejected (rejection : Rejection)
  /-- The text in a block, without the blanks around it, is no query. -/
  | badQuery (source : Text) (complaint : Query.Complaint)
  /-- The data has no member that a path starts at. -/
  | undefinedName (name : Text)
  /-- A path goes on after null. -/
  | propertyOfNull (property : Text)
  /-- No helper has this name. -/
  | unknownHelper (name : Text)
  /-- A helper is called with a wrong number of arguments. -/
  | argumentCount (helper : Helper) (count : Nat)
  /-- A helper is called with an argument that is no text. -/
  | argumentType (helper : Helper)
  /-- A block holds code to be run, which is not supported. -/
  | codeBlock (body : Text)
  /-- An override has no equals sign. -/
  | badOverride (item : Text)
  /-- The metadata of the project is no object. -/
  | metaNotObject

/-- The wording of a fault. -/
def Fault.message : Fault → Text
  | .unreadable path cause => "Failed to read ".toList ++ path ++ ": ".toList ++ cause.message
  | .unwritable path cause => "Failed to write ".toList ++ path ++ ": ".toList ++ cause.message
  | .invalidJson path cause => "Invalid JSON in ".toList ++ path ++ ": ".toList ++ cause.message
  | .rejected rejection => rejection.message
  | .badQuery source complaint =>
      "Invalid expression `".toList ++ source ++ "`: ".toList ++ complaint.message
  | .undefinedName name => name ++ " is not defined".toList
  | .propertyOfNull property =>
      "Cannot read property `".toList ++ property ++ "` of null".toList
  | .unknownHelper name => "Unknown helper: ".toList ++ name
  | .argumentCount helper count =>
      helper.name ++ "() expects ".toList ++ helper.arity ++ ", got ".toList ++
        Decimal.numeral count ++ " argument(s)".toList
  | .argumentType helper => helper.name ++ "() expects a string argument".toList
  | .codeBlock body =>
      "Evaluate blocks are not supported: <%".toList ++ body ++ "%>".toList
  | .badOverride item => "Invalid override `".toList ++ item ++ "`, expected key=value".toList
  | .metaNotObject => "`meta` in package.json must be an object".toList

/-- The path at which nothing was found to read. -/
def Fault.missing? : Fault → Option Text
  | .unreadable path .notFound => some path
  | _ => none

/-- A computation that ends with a value or a fault, or has no result within its levels. -/
abbrev Attempt (α : Type) : Type :=
  ExceptT Fault Option α

namespace Attempt

variable {α β : Type} {attempt : Attempt α} {b : β}

/-- What follows a computation has a value only if the computation has one. -/
theorem bind_eq_ok_iff {next : α → Attempt β} :
    attempt >>= next = some (.ok b) ↔ ∃ a, attempt = some (.ok a) ∧ next a = some (.ok b) := by
  constructor
  · intro h
    match attempt, h with
    | some (.ok a), h => exact ⟨a, rfl, h⟩
  · rintro ⟨a, rfl, h⟩
    exact h

theorem map_eq_ok_iff {f : α → β} :
    f <$> attempt = some (.ok b) ↔ ∃ a, attempt = some (.ok a) ∧ f a = b := by
  constructor
  · intro h
    match attempt, h with
    | some (.ok a), rfl => exact ⟨a, rfl, rfl⟩
  · rintro ⟨a, rfl, rfl⟩
    rfl

/-- What follows a value goes on with it. -/
theorem lift_ok_bind (a : α) (next : α → Attempt β) :
    liftM (.ok a : Except Fault α) >>= next = next a := rfl

/-- What follows a reading ends without a fault only if the reading does. -/
theorem lift_bind_eq_iff {result : Except Fault α} {next : α → Attempt β} {ending : Attempt β}
    (h : ∀ fault, ending ≠ some (.error fault)) :
    liftM result >>= next = ending ↔ ∃ a, result = .ok a ∧ next a = ending := by
  cases result with
  | error fault => exact iff_of_false (h fault).symm fun ⟨a, ha, _⟩ => nomatch ha
  | ok a =>
      constructor
      · exact fun hnext => ⟨a, rfl, hnext⟩
      · rintro ⟨_, ⟨⟩, hnext⟩
        exact hnext

theorem map_lift (f : α → β) (result : Except Fault α) :
    f <$> (liftM result : Attempt α) = liftM (result.map f) := by
  cases result <;> rfl

theorem lift_eq_ok_iff {result : Except Fault β} :
    (liftM result : Attempt β) = some (.ok b) ↔ result = .ok b :=
  Option.some_inj

end Attempt

end SafeTemplate.Project
