/-
**The value of a query.**

A path starts at a member of the data, which must be there, and goes on step by step.  A step to a
member or an item that is missing leads to null, and no step leads on from null.  Arrays and texts
have a member `length`; the length and the positions of a text are counted in UTF-16 code units.  The
arguments of a call are evaluated first, from left to right.

Main definitions: `Step.apply`, `Step.applyAll`, `Query.evaluate`.
-/

import SafeTemplate.Project.Fault
import SafeTemplate.Text.Units

set_option autoImplicit false

namespace SafeTemplate

open Project (Attempt Fault)

/-! ### Steps -/

/-- The name of a step, as a fault gives it. -/
def Step.label : Step → Text
  | .key name => name
  | .index position => Decimal.numeral position

/-- The member that holds the length of an array or a text. -/
def lengthKey : Text := "length".toList

/-- A length or a position as a value. -/
def Json.Value.ofNat (n : Nat) : Json.Value :=
  .number (.int n)

/-- The value that one step leads to. -/
def Step.apply (step : Step) (value : Json.Value) : Except Fault Json.Value :=
  match value, step with
  | .null, step => .error (.propertyOfNull step.label)
  | .object members, .key name => .ok ((Json.Members.lookup name members).getD .null)
  | .array items, .key name =>
      .ok (if name = lengthKey then .ofNat items.length else .null)
  | .array items, .index position => .ok (items.getD position .null)
  | .string s, .key name =>
      .ok (if name = lengthKey then .ofNat (Text.units s).length else .null)
  | .string s, .index position =>
      match (Text.units s)[position]? with
      | some unit => .ok (.string [Text.ofUnit unit])
      | none => .ok .null
  | _, _ => .ok .null

/-- The value that some steps lead to, one after the other. -/
def Step.applyAll : List Step → Json.Value → Except Fault Json.Value
  | [], value => .ok value
  | step :: more, value =>
      match step.apply value with
      | .error fault => .error fault
      | .ok value => applyAll more value

/-! ### Queries -/

namespace Query

mutual

/-- The value of a query.  `call` gives the value of a helper call. -/
def evaluate (data : Json.Members) (call : Text → List Json.Value → Attempt Json.Value) :
    Query → Attempt Json.Value
  | .constant value => return value
  | .path root steps =>
      match Json.Members.lookup root data with
      | none => throw (.undefinedName root)
      | some value => liftM (Step.applyAll steps value)
  | .call helper arguments => do
      let values ← evaluateAll data call arguments
      call helper values

/-- The values of some queries, from left to right. -/
def evaluateAll (data : Json.Members) (call : Text → List Json.Value → Attempt Json.Value) :
    List Query → Attempt (List Json.Value)
  | [] => return []
  | query :: more => do
      let value ← evaluate data call query
      let values ← evaluateAll data call more
      return value :: values

end

end Query

end SafeTemplate
