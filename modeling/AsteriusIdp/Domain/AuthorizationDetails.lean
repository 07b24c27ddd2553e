import AsteriusIdp.Json
import AsteriusIdp.Lib.Fallible

/-!
# Authorization details

The reader of rich authorization requests: a short list of shallow objects, each with a `type` and,
if it names any, `locations` that are texts.
-/

namespace AsteriusIdp

open Fallible Json

/-- The parameter is not one the client may be authorized for. -/
structure InvalidAuthorizationDetails where
  deriving DecidableEq

namespace AuthorizationDetails

/-- The most elements. -/
def maxElements : ℕ := 16

/-- How deep the array may nest. -/
def maxDepth : ℕ := 8

/-- The longest type name, in bytes. -/
def maxTypeLen : ℕ := 128

mutual

/-- Arrays and objects nest deeper than the budget. -/
def depthExceeds : Json → ℕ → Bool
  | .arr items, budget => budget = 0 || itemsExceed items (budget - 1)
  | .obj members, budget => budget = 0 || membersExceed members (budget - 1)
  | .null, _ | .bool _, _ | .num _, _ | .str _, _ => false

/-- Some item nests deeper than the budget. -/
def itemsExceed : List Json → ℕ → Bool
  | [], _ => false
  | v :: vs, budget => depthExceeds v budget || itemsExceed vs budget

/-- Some member nests deeper than the budget. -/
def membersExceed : List (String × Json) → ℕ → Bool
  | [], _ => false
  | (_, v) :: ms, budget => depthExceeds v budget || membersExceed ms budget

end

/-- Printable ASCII without quotes and backslashes. -/
def isTypeName (name : String) : Bool :=
  name ≠ "" && name.utf8ByteSize ≤ maxTypeLen && name.toList.all fun c =>
    0x21 ≤ c.toNat && c.toNat ≤ 0x7e && c ≠ '"' && c ≠ '\\'

/-- One element. -/
def parseElement (element : Json) : Except InvalidAuthorizationDetails Object := do
  refuseIf (depthExceeds element (maxDepth - 1)) {}
  let object ← okOr element.asObject {}
  refuseIf (((Entries.lookup object "type").bind asStr).any isTypeName = false) {}
  refuseIf ((Entries.lookup object "locations").any fun locations =>
    !locations.asArray.any fun values => values.all fun value => value.asStr.isSome) {}
  pure object

/-- The elements of an array. -/
def fromValue (value : Json) : Except InvalidAuthorizationDetails (List Object) := do
  let elements ← okOr value.asArray {}
  refuseIf (maxElements < elements.length) {}
  elements.mapM parseElement

/-- A list is accepted when it is short and its elements are accepted. -/
theorem fromValue_arr {elements : List Json} :
    (∃ details, fromValue (.arr elements) = .ok details) ↔
      elements.length ≤ maxElements ∧
      ∀ element ∈ elements, ∃ object, parseElement element = .ok object := by
  simp [fromValue, exists_mapM_ok]

end AuthorizationDetails

end AsteriusIdp
