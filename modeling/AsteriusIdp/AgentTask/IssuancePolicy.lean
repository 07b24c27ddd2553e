import AsteriusIdp.AgentTask.Attenuation

/-!
# The policy a task token is signed under

Before a token is signed under a task, its claims are held against the current registration of the
client, the settings of the tenant and the resource servers of the audience.

* `IssuanceRows.currentPolicy`: the checks, and the longest lifetime that is left.
* `within_of_signAccess`: a token that is signed under a task stays within its approval.
-/

namespace AsteriusIdp.AgentTask

open Fallible
open Issuance (Task)

/-- The grant types of a token request. -/
inductive GrantType where
  | authorizationCode
  | refreshToken
  | clientCredentials
  | tokenExchange
  | jwtBearer
  | deviceCode
  | ciba
  deriving DecidableEq

/-- The limits of an agent, with those that only this check reads. -/
structure IssuanceLimits extends AgentLimits where
  grantTypes : Finset GrantType
  /-- The types of details it may name, or any. -/
  authorizationDetailsTypes : Option (Finset String)

/-- The row of an active client. -/
structure Registration where
  scopes : Finset String
  authorizationDetailsTypes : Finset String
  grantTypes : Finset GrantType
  /-- The limits of a client that is an agent. -/
  agent : Option IssuanceLimits

/-- What a resource server understands, and how long its tokens live. -/
structure ResourcePolicy where
  scopes : Option (Finset String)
  tokenLifetime : Option ℤ

/-- What the check reads. -/
structure IssuanceRows where
  kind : GrantType
  /-- The access token lifetime of the tenant, if it is active. -/
  accessTokenLifetime : Option ℤ
  /-- The limits the tenant sets for agents. -/
  tenantLimits : Option IssuanceLimits
  /-- The rows of the active clients. -/
  clients : String → Option Registration
  /-- The schemas of the registered types of details. -/
  schemas : String → Option (Json → Bool)
  resourceServers : String → Option ResourcePolicy
  /-- The resources the server itself owns. -/
  implicitResources : List (String × ResourcePolicy)

/-- The longest a task token lives. -/
def maxTaskTokenLifetime : ℤ := seconds 300

/-- The type a detail names. -/
def typeOf (detail : Json) : Option String := (detail.member "type").bind Json.asStr

namespace IssuanceRows

variable (rows : IssuanceRows)

/-- A detail is of a type that is registered for the client and for the tenant. -/
def checkDetail (registration : Registration) (detail : Json) : Except TaskError Unit := do
  let name ← okOr (typeOf detail) .invalid
  refuseIf (name ∉ registration.authorizationDetailsTypes) .invalid
  let schema ← okOr (rows.schemas name) .invalid
  refuseIf (¬schema detail) .invalid

/-- The policy of a resource; what is stored comes before what the server owns. -/
def resourcePolicy (resource : String) : Option ResourcePolicy :=
  (rows.resourceServers resource).or (rows.implicitResources.lookup resource)

/-- A resource is known and understands the scopes. -/
def understands (scopes : Finset String) (resource : String) : Bool :=
  (rows.resourcePolicy resource).any fun policy => policy.scopes.all (scopes ⊆ ·)

/-- How long tokens for a resource live. -/
def tokenLifetime (cap : ℤ) (resource : String) : ℤ :=
  ((rows.resourcePolicy resource).bind (·.tokenLifetime)).getD cap

/-- The token stays within the limits of an agent. -/
def checkLimits (grant : Grant) (claims : TokenClaims) (cap : ℤ) (limits : IssuanceLimits) :
    Except TaskError ℤ := do
  refuseIf (rows.kind ∉ limits.grantTypes ∨ ¬limits.scopes.all (claims.scope ⊆ ·) ∨
    ¬limits.audiences.all (claims.aud ⊆ ·) ∨
    limits.maxDelegationDepth < max grant.actorChain.length 1 ∨
    ¬limits.authorizationDetailsTypes.all fun allowed =>
      ∀ detail ∈ grant.authorizationDetails, (typeOf detail).any (· ∈ allowed)) .invalid
  pure (limits.accessTokenTtlCap.elim cap (min cap))

/-- The limits that hold for a client: its own and those of the tenant, if it is an agent. -/
def limits (registration : Registration) : List IssuanceLimits :=
  match registration.agent with
  | none => []
  | some own => own :: rows.tenantLimits.toList

/-- The current policy permits the token; how long it may live. -/
def currentPolicy (grant : Grant) (claims : TokenClaims) : Except TaskError ℤ := do
  let lifetime ← okOr rows.accessTokenLifetime .invalid
  let registration ← okOr (rows.clients grant.client) .invalid
  -- A token without scopes has no `scope` claim to read.
  refuseIf (claims.scope = ∅) .invalid
  refuseIf (¬claims.scope ⊆ grant.scopes ∨ ¬claims.aud ⊆ grant.resources ∨
    ¬claims.scope ⊆ registration.scopes ∨ rows.kind ∉ registration.grantTypes) .invalid
  grant.authorizationDetails.forM (rows.checkDetail registration)
  refuseIf (∃ resource ∈ claims.aud, ¬rows.understands claims.scope resource) .invalid
  let cap := min lifetime maxTaskTokenLifetime
  (rows.limits registration).foldlM (rows.checkLimits grant claims)
    (claims.aud.fold min cap (rows.tokenLifetime cap))

variable {rows} in
/-- A token that the policy permits carries no more than its grant. -/
theorem subset_of_currentPolicy {grant : Grant} {claims : TokenClaims} {cap : ℤ}
    (h : rows.currentPolicy grant claims = .ok cap) :
    claims.scope ⊆ grant.scopes ∧ claims.aud ⊆ grant.resources := by
  simp only [currentPolicy, bind_ok, refuseIf_ok, not_or, not_not] at h
  obtain ⟨_, -, _, -, _, -, _, ⟨hscs, hrs, -⟩, -⟩ := h
  exact ⟨hscs, hrs⟩

end IssuanceRows

/-- What a token carries stays within an approval. -/
structure Within (permissions : Permissions) (expiry : ℤ) (claims : TokenClaims) : Prop where
  scopes : claims.scope ⊆ permissions.scopes
  resources : claims.aud ⊆ permissions.resources
  details : permissions.permitsDetails claims.authorizationDetails permissions.resources = .ok ()
  expiry : seconds claims.exp ≤ expiry

/-- A token that is signed under a task stays within what was approved. -/
theorem within_of_signFenced {store after : Issuance.Store} {task : Task} {grant : Grant}
    {claims signed : TokenClaims} {clock : ℤ} {rows : IssuanceRows}
    (hpol : store.currentPolicy = fun grant claims => (rows.currentPolicy grant claims).toOption)
    (h : Issuance.signFenced store task grant claims clock = .ok (signed, after)) :
    Within task.permissions task.expiresAt signed := by
  simp only [Issuance.signFenced, Issuance.checkTask, Issuance.checkLifetime, bind_ok,
    refuseIf_ok, okOr_ok, pure_ok, not_or, not_not, not_lt, hpol] at h
  obtain ⟨_, ⟨_, -, _, hpm, _, -, hds⟩, _, -, _, ⟨cap, hcap, -, hdl, -⟩, _, -, _, -,
    _, hsgd, rfl, -⟩ := h
  obtain ⟨exp, hexp, rfl⟩ := Issuance.capAuthorityExpiry_spec hsgd
  obtain ⟨hscs, hrs, -, hgrd⟩ := Permissions.permits_ok.1 hpm
  have halw : rows.currentPolicy grant claims = .ok cap := by
    cases hp : rows.currentPolicy grant claims with
    | error => simp [hp, Except.toOption] at hcap
    | ok => simpa [hp, Except.toOption] using hcap
  obtain ⟨hsc, haud⟩ := IssuanceRows.subset_of_currentPolicy halw
  refine ⟨hsc.trans hscs, haud.trans hrs, ?_, ?_⟩
  · rw [hds]
    exact Permissions.permitsDetails_mono hgrd hrs
  · have hle : exp ≤ claims.exp := hexp
    calc seconds exp ≤ seconds claims.exp := by unfold seconds; omega
      _ ≤ _ := hdl
      _ ≤ task.expiresAt := Issuance.foldl_min_le _ _

end AsteriusIdp.AgentTask
