import AsteriusIdp.Json

/-!
# Grants

A grant is the authorization behind every token of the tenant.  Its status is read off three
stamps: revocation ends it, then its expiry, and it is active once a credential was taken from it.
Instants are nanoseconds.
-/

namespace AsteriusIdp

/-- What a grant can be used for. -/
inductive GrantStatus where
  | pending
  | active
  | revoked
  | expired
  deriving DecidableEq

/-- Why a grant was revoked. -/
inductive RevocationReason where
  | userRevoked
  | clientRevoked
  | adminRevoked
  | codeReplayed
  | sessionEnded
  | keyCompromise
  | superseded
  deriving DecidableEq

/-- The approved task a grant acts under. -/
structure TaskBinding where
  taskId : String
  rootGrantId : String
  approvalRevision : ℤ
  expiresAt : ℤ
  deriving DecidableEq

/-- One authorization. -/
structure Grant where
  id : String
  client : String
  user : Option String
  subject : Option String
  scopes : Finset String
  authorizationDetails : List Json
  resources : Finset String
  /-- The parties acting, the current one first. -/
  actorChain : List Json
  /-- The grant this one was delegated from. -/
  parent : Option String
  /-- The revision of the parent this grant was derived from. -/
  parentRevision : Option String
  task : Option TaskBinding
  /-- The browser session it was authorized in. -/
  session : Option String
  createdAt : ℤ
  /-- Changes with every change of what the grant authorizes. -/
  authorityRevision : String
  expiresAt : Option ℤ
  claimedAt : Option ℤ
  revokedAt : Option ℤ
  revocationReason : Option RevocationReason
  deriving DecidableEq

namespace Grant

/-- The most resources a grant names. -/
def maxResources : ℕ := 32

/-- A grant as it is created, before anything is authorized. -/
def new (id client authorityRevision : String) (createdAt : ℤ) : Grant :=
  { id, client, user := none, subject := none, scopes := ∅, authorizationDetails := [],
    resources := ∅, actorChain := [], parent := none, parentRevision := none, task := none,
    session := none, createdAt, authorityRevision, expiresAt := none, claimedAt := none,
    revokedAt := none, revocationReason := none }

/-- What the grant is good for. -/
def status (grant : Grant) (now : ℤ) : GrantStatus :=
  if grant.revokedAt.isSome then .revoked
  else if grant.expiresAt.any (· ≤ now) then .expired
  else if grant.claimedAt.isSome then .active
  else .pending

/-- A credential may be taken from the grant. -/
def mayIssue (grant : Grant) (now : ℤ) : Bool :=
  grant.status now = .pending ∨ grant.status now = .active

theorem status_eq_revoked {grant : Grant} {now : ℤ} :
    grant.status now = .revoked ↔ grant.revokedAt.isSome := by
  unfold status
  split_ifs <;> simp_all

theorem revokedAt_eq_none_of_active {grant : Grant} {now : ℤ} (h : grant.status now = .active) :
    grant.revokedAt = none := by
  by_contra hrev
  cases (status_eq_revoked.2 (Option.isSome_iff_ne_none.2 hrev)).symm.trans h

end Grant

/-- How a user proved who they are. -/
inductive AuthenticationMethod where
  | password
  | passkey
  | oneTimeCode
  | federatedOidc
  | userVerified
  | existingSession
  deriving DecidableEq

/-- When and how the user authenticated. -/
structure GrantAuthentication where
  authenticatedAt : ℤ
  acr : Option String
  amr : List AuthenticationMethod
  deriving DecidableEq

/-- A grant with everything the user agreed to. -/
structure ConsentGrant extends Grant where
  /-- The stored form of the claims request. -/
  claims : Json
  /-- The preferred languages, the most preferred one first. -/
  claimsLocales : List String
  authentication : Option GrantAuthentication
  updatedAt : ℤ
  deriving DecidableEq

/-- An RFC 6749 scope token: printable ASCII other than space, the quote and the backslash. -/
def isScopeToken (scope : String) : Bool :=
  scope.toList.all fun c =>
    let n := c.toNat
    n == 0x21 || (0x23 ≤ n && n ≤ 0x5b) || (0x5d ≤ n && n ≤ 0x7e)

end AsteriusIdp
