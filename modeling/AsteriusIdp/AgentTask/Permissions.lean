import AsteriusIdp.Domain.ResourceServer

/-!
# The ceiling of an approved task

An agent task is approved with exact ceilings: scopes, resources, authorization details and a
depth of delegation.  A grant is permitted when it stays under all of them; each of its details
has to be covered by one single approved detail.
-/

namespace AsteriusIdp.AgentTask

open Fallible

/-- The task does not permit what was asked. -/
inductive TaskError where
  | invalid
  deriving DecidableEq

/-- The approved ceilings.  Empty sets confer nothing. -/
structure Permissions where
  scopes : Finset String
  resources : Finset String
  authorizationDetails : List Json
  maxDelegationDepth : ℕ

/-- The one type of authorization details that can be compared. -/
def workloadActions : String := "urn:asterius:workload-actions"

/-- The members of a detail are its type, actions and locations, and the type is known. -/
def comparable (object : Object) : Bool :=
  (∀ e ∈ object, e.1 ∈ ["type", "actions", "locations"]) ∧
    (object.lookup "type").bind Json.asStr = some workloadActions

/-- An array member of a detail. -/
def arrayOf (object : Object) (key : String) : Option (List Json) :=
  (object.lookup key).bind Json.asArray

/-- Adds the actions of an approved detail. -/
def addActions (actions : Finset String) (detail : Json) : Except TaskError (Finset String) := do
  let object ← okOr detail.asObject .invalid
  refuseIf (¬comparable object) .invalid
  let items ← okOr (arrayOf object "actions") .invalid
  let names ← items.mapM fun action => okOr action.asStr .invalid
  pure (actions ∪ names.toFinset)

/-- One requested detail names allowed actions at one target. -/
def validateAction (allowed targets : Finset String) (detail : Json) : Except TaskError Unit := do
  let object ← okOr detail.asObject .invalid
  refuseIf (¬comparable object) .invalid
  let actions ← okOr (arrayOf object "actions") .invalid
  refuseIf (actions = [] ∨ actions.length > 64) .invalid
  refuseIf (∃ action ∈ actions, ¬action.asStr.any (· ∈ allowed)) .invalid
  let locations ← okOr (arrayOf object "locations") .invalid
  refuseIf (locations.length ≠ 1) .invalid
  refuseIf (∃ location ∈ locations, ¬location.asStr.any (· ∈ targets)) .invalid

/-- Every detail is a valid action. -/
def validateActions (details : List Json) (allowed targets : Finset String) :
    Except TaskError Unit := do
  refuseIf (details.length > 16) .invalid
  details.forM (validateAction allowed targets)

/-- One approved detail covers a requested one: each of its arrays contains the other's. -/
def covers (approved requested : Json) : Bool :=
  approved.asObject.any fun approved => requested.asObject.any fun requested =>
    ["actions", "locations"].all fun key =>
      match arrayOf requested key, arrayOf approved key with
      | some requested, some approved => requested.all (approved.contains ·)
      | _, _ => false

namespace Permissions

/-- The ceiling covers every detail. -/
def permitsDetails (ceiling : Permissions) (details : List Json) (resources : Finset String) :
    Except TaskError Unit := do
  let actions ← ceiling.authorizationDetails.foldlM addActions ∅
  validateActions details actions resources
  refuseIf (∃ detail ∈ details, detail.asObject.isNone) .invalid
  refuseIf (∃ detail ∈ details, ¬ceiling.authorizationDetails.any (covers · detail)) .invalid

/-- The grant stays under the ceiling. -/
def permits (ceiling : Permissions) (grant : Grant) : Except TaskError Unit := do
  refuseIf (¬grant.scopes ⊆ ceiling.scopes ∨ ¬grant.resources ⊆ ceiling.resources ∨
    grant.actorChain.length > ceiling.maxDelegationDepth) .invalid
  ceiling.permitsDetails grant.authorizationDetails grant.resources

/-- The ceiling itself is one that can be approved. -/
def validate (parseUrl : UrlParser) (ceiling : Permissions) : Except TaskError Unit := do
  refuseIf ("device_sso" ∈ ceiling.scopes ∨ ceiling.scopes = ∅ ∨ ceiling.resources = ∅ ∨
    ceiling.scopes.card > 64 ∨ ceiling.resources.card > 64 ∨
    ceiling.authorizationDetails.length > 32 ∨
    ¬(1 ≤ ceiling.maxDelegationDepth ∧ ceiling.maxDelegationDepth ≤ 8)) .invalid
  refuseIf (∃ scope ∈ ceiling.scopes, scope.utf8ByteSize > 256 ∨ ¬isScopeToken scope) .invalid
  refuseIf (∃ resource ∈ ceiling.resources, resource.utf8ByteSize > 2048 ∨
    ¬(ResourceIdentifier.parse parseUrl resource).isOk) .invalid
  ceiling.permitsDetails ceiling.authorizationDetails ceiling.resources

theorem permits_subset {ceiling : Permissions} {grant : Grant} {u : Unit}
    (h : ceiling.permits grant = .ok u) :
    grant.scopes ⊆ ceiling.scopes ∧ grant.resources ⊆ ceiling.resources := by
  simp only [permits, bind_ok, refuseIf_ok, not_or, not_not] at h
  obtain ⟨-, ⟨hscs, hrs, -⟩, -⟩ := h
  exact ⟨hscs, hrs⟩

end Permissions

end AsteriusIdp.AgentTask
