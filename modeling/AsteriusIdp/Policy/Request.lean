import AsteriusIdp.Json
import AsteriusIdp.Time

/-!
# What a policy decision is about

A decision is asked about a subject, an action, a resource and a context.  What the enforcement
point sent is kept apart, as `properties`, from what the server resolved itself: groups, roles,
grants, the `acr` and the snapshot of trusted facts.

A trusted fact is an observation with a source and a validity window.  It is *known* at an instant
only inside its window and with a value of the shape its name calls for.
-/

namespace AsteriusIdp.Policy

/-! ### Trusted facts -/

/-- The closed vocabulary of trusted facts. -/
inductive FactName where
  | assurance
  | authenticationAge
  | applicationSensitivity
  | networkZone
  | deviceCompliance
  | groups
  | roles
  | grants
  deriving DecidableEq

/-- What is known about a fact. -/
inductive Availability where
  | known
  | absent
  | stale
  | unavailable
  | invalid
  deriving DecidableEq

/-- The value of a fact. -/
inductive FactValue where
  | text (value : String)
  | names (values : Finset String)
  | authenticationTime (at_ : ℤ)
  | resolved
  deriving DecidableEq

/-- An adapter's observation with its source and validity window. -/
structure Fact where
  availability : Availability
  value : Option FactValue
  source : String
  observedAt : Option ℤ
  expiresAt : Option ℤ
  deriving DecidableEq

/-- The availability of an observation at an instant.  One from the future, or without a validity
window, is not known. -/
def Fact.at_ (fact : Fact) (now : ℤ) : Availability :=
  if fact.availability ≠ .known then fact.availability
  else match fact.observedAt, fact.expiresAt, fact.value with
    | some observed, some expires, some _ =>
      if observed ≤ now ∧ now < expires then .known
      else if observed ≤ now ∧ expires ≤ now then .stale
      else .invalid
    | _, _, _ => .invalid

/-- The facts the server captured for one transaction of one application. -/
structure TrustedAccessContext where
  tenant : String
  subject : Option String
  client : String
  action : String
  evaluatedAt : ℤ
  policyRevision : String
  acrRevision : String
  clientRevision : String
  facts : FactName → Option Fact

namespace TrustedAccessContext

/-- A value has the shape its fact calls for. -/
def validValue (trusted : TrustedAccessContext) : FactName → Option FactValue → Bool
  | .assurance, some (.text value) => value ≠ "" ∧ value.utf8ByteSize ≤ 256
  | .authenticationAge, some (.authenticationTime value) => value ≤ trusted.evaluatedAt
  | .applicationSensitivity, some (.text value) => value ∈ ["standard", "sensitive", "critical"]
  | .deviceCompliance, some (.text value) => value ∈ ["compliant", "non_compliant", "unknown"]
  | .networkZone, some (.names values) =>
    values.card ≤ 64 ∧ ∀ value ∈ values, value ≠ "" ∧ value.utf8ByteSize ≤ 128
  | .groups, some .resolved | .roles, some .resolved | .grants, some .resolved => true
  | _, _ => false

/-- What is known about a fact at the instant of the evaluation. -/
def availability (trusted : TrustedAccessContext) (name : FactName) : Availability :=
  match trusted.facts name with
  | none => .absent
  | some fact =>
    if fact.at_ trusted.evaluatedAt ≠ .known then fact.at_ trusted.evaluatedAt
    else if trusted.validValue name fact.value ∧ fact.source ≠ "" ∧
    fact.source.utf8ByteSize ≤ 128 then .known
    else .invalid

/-- The value of a fact that is known. -/
def value (trusted : TrustedAccessContext) (name : FactName) : Option FactValue :=
  if trusted.availability name = .known then (trusted.facts name).bind (·.value) else none

end TrustedAccessContext

/-! ### The request -/

/-- Who defines a role. -/
inductive RoleOwner where
  | tenant
  | client (id : String)
  deriving DecidableEq

/-- The application roles a subject holds. -/
structure HeldRoles where
  tenant : Finset String
  /-- Client roles, by the client that defines them. -/
  clients : Entries String (Finset String)

/-- One element of a grant's authorization details. -/
structure DetailFact where
  detailType : String
  actions : Finset String
  locations : Finset String

/-- An authorization that is live. -/
structure ActiveGrant where
  client : String
  scopes : Finset String
  resources : Finset String
  details : List DetailFact

/-- Who is asking. -/
structure Subject where
  kind : String
  id : String
  properties : Object
  groups : Finset String
  roles : HeldRoles
  grants : List ActiveGrant

/-- What is being attempted. -/
structure Action where
  name : String
  properties : Object

/-- What is being acted on. -/
structure Resource where
  kind : String
  id : String
  properties : Object

/-- The environment of the request. -/
structure Context where
  trusted : Option TrustedAccessContext
  acr : Option String
  /-- The tenant's authentication contexts, weakest first. -/
  ladder : List String
  properties : Object

/-- What a decision is asked about. -/
structure EvaluationRequest where
  subject : Subject
  action : Action
  resource : Resource
  context : Context

/-- Does the subject hold the role from this owner, or from any? -/
def Subject.holdsRole (subject : Subject) (owner : Option RoleOwner) (name : String) : Bool :=
  match owner with
  | some .tenant => name ∈ subject.roles.tenant
  | some (.client client) => ∃ held ∈ subject.roles.clients.lookup client, name ∈ held
  | none => name ∈ subject.roles.tenant ∨ ∃ e ∈ subject.roles.clients, name ∈ e.2

/-- Is the session's `acr` at or above `required` on the ladder?  With a trusted snapshot the
`acr` counts only if the snapshot vouches for the same value. -/
def Context.acrAtLeast (context : Context) (required : String) : Bool :=
  let vouched := match context.trusted with
    | some trusted => match trusted.value .assurance with
      | some (.text value) => context.acr = some value
      | _ => false
    | none => true
  let rank (value : String) := context.ladder.findIdx? (· = value)
  vouched && match context.acr.bind rank, rank required with
    | some held, some wanted => wanted ≤ held
    | _, _ => false

end AsteriusIdp.Policy
