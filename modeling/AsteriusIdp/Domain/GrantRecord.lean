import AsteriusIdp.Domain.Grant
import AsteriusIdp.Lib.Fallible
import AsteriusIdp.Lib.Text

/-!
# Rows of grants

A grant is stored as a row and every row is checked when it is read (`GrantRecord.validate`).  A
row that breaks a rule is no grant: no token can be issued from it and nobody can amend it.

`ConsentGrant.record` is the row a grant is written to, and `validate_record` says which grants
come back: those whose sets and texts keep to the bounds (`ConsentGrant.Bounded`) and whose
stamps are coherent (`ConsentGrant.Coherent`), and those come back as they were.
-/

namespace AsteriusIdp

open Fallible Json

/-! ### Labels -/

namespace RevocationReason

/-- The reasons. -/
def all : List RevocationReason :=
  [userRevoked, clientRevoked, adminRevoked, codeReplayed, sessionEnded, keyCompromise, superseded]

/-- Its stored name. -/
def asStr : RevocationReason → String
  | userRevoked => "user_revoked"
  | clientRevoked => "client_revoked"
  | adminRevoked => "admin_revoked"
  | codeReplayed => "code_replayed"
  | sessionEnded => "session_ended"
  | keyCompromise => "key_compromise"
  | superseded => "superseded"

/-- The reason of a name. -/
def parse (value : String) : Option RevocationReason := all.find? (·.asStr = value)

theorem parse_asStr (reason : RevocationReason) : parse reason.asStr = some reason := by
  cases reason <;> decide

end RevocationReason

namespace AuthenticationMethod

/-- The methods. -/
def all : List AuthenticationMethod :=
  [password, passkey, oneTimeCode, federatedOidc, userVerified, existingSession]

/-- The `amr` value. -/
def asStr : AuthenticationMethod → String
  | password => "pwd"
  | passkey => "pop"
  | oneTimeCode => "otp"
  | federatedOidc => "federated_oidc"
  | userVerified => "user"
  | existingSession => "session"

/-- Passkeys were once stored under another label. -/
def parse (value : String) : Option AuthenticationMethod :=
  if value = "swk" then some passkey else all.find? (·.asStr = value)

theorem parse_asStr (method : AuthenticationMethod) : parse method.asStr = some method := by
  cases method <;> decide

end AuthenticationMethod

/-! ### The row -/

/-- Why a row is no grant. -/
inductive GrantError where
  | incoherentRevocation
  | unknownRevocationReason
  | expiryPrecedesCreation
  | scopeToken
  | scopeSize
  | resource
  | resourceSize
  | claimsShape
  | claimsLocale
  | authorizationDetailsShape
  | actorChainShape
  | incoherentAuthentication
  deriving DecidableEq

/-- The columns of a grant. -/
structure GrantRecord where
  id : String
  client : String
  user : Option String
  subject : Option String
  scopes : List String
  claims : Json
  claimsLocales : List String
  authorizationDetails : Json
  resources : List String
  actorChain : Json
  parent : Option String
  session : Option String
  authenticatedAt : Option ℤ
  acr : Option String
  amr : List String
  createdAt : ℤ
  updatedAt : ℤ
  expiresAt : Option ℤ
  claimedAt : Option ℤ
  revokedAt : Option ℤ
  revocationReason : Option String

namespace Grant

/-- The most scopes a grant holds. -/
def maxScopes : ℕ := 64

/-- The longest scope, in bytes. -/
def maxScopeLen : ℕ := 128

/-- The most language tags a grant holds. -/
def maxClaimsLocales : ℕ := 8

/-- The longest language tag, in bytes. -/
def maxLocaleLen : ℕ := 35

end Grant

namespace GrantRecord

/-- One scope. -/
def validateScope (scope : String) : Except GrantError Unit := do
  refuseIf (scope = "" ∨ Grant.maxScopeLen < scope.utf8ByteSize) .scopeSize
  refuseIf (isScopeToken scope = false) .scopeToken

/-- Not too many, each valid. -/
def validateScopes (scopes : List String) : Except GrantError (Finset String) := do
  refuseIf (Grant.maxScopes < scopes.length) .scopeSize
  forM scopes validateScope
  pure scopes.toFinset

/-- `isUri` accepts the absolute URIs without a fragment. -/
def validateResources (isUri : String → Bool) (resources : List String) :
    Except GrantError (Finset String) := do
  refuseIf (Grant.maxResources < resources.length) .resourceSize
  forM resources fun resource => refuseIf (isUri resource = false) .resource
  pure resources.toFinset

/-- One to eight characters of a class. -/
def isSubtag (isIn : Char → Bool) (subtag : String) : Bool :=
  1 ≤ subtag.utf8ByteSize && subtag.utf8ByteSize ≤ 8 && subtag.toList.all isIn

/-- A language tag: a word, then subtags of letters and digits. -/
def isLanguageTag (tag : String) : Bool :=
  match Text.split '-' tag with
  | [] => false
  | primary :: subtags =>
    isSubtag Char.isAlpha primary && subtags.all (isSubtag Char.isAlphanum)

/-- Not too many, none long. -/
def validateClaimsLocales (locales : List String) : Except GrantError Unit := do
  refuseIf (Grant.maxClaimsLocales < locales.length) .claimsLocale
  forM locales fun tag => do
    refuseIf (Grant.maxLocaleLen < tag.utf8ByteSize) .claimsLocale
    refuseIf (isLanguageTag tag = false) .claimsLocale

/-- The two columns of a revocation are written together. -/
def validateRevocation : Option ℤ → Option String → Except GrantError (Option RevocationReason)
  | some _, some reason => some <$> okOr (RevocationReason.parse reason) .unknownRevocationReason
  | none, none => .ok none
  | _, _ => .error .incoherentRevocation

/-- A label that is not known is dropped. -/
def validateAuthentication (authenticatedAt : Option ℤ) (acr : Option String) (amr : List String) :
    Except GrantError (Option GrantAuthentication) :=
  match authenticatedAt with
  | some authenticatedAt =>
    .ok (some { authenticatedAt, acr, amr := amr.filterMap AuthenticationMethod.parse })
  | none => if acr = none ∧ amr = [] then .ok none else .error .incoherentAuthentication

/-- The grant a row holds.  The task, the parent's revision and the revision of the grant are read
from other rows. -/
def validate (isUri : String → Bool) (row : GrantRecord) : Except GrantError ConsentGrant := do
  let revocationReason ← validateRevocation row.revokedAt row.revocationReason
  refuseIf (row.expiresAt.any (· ≤ row.createdAt)) .expiryPrecedesCreation
  let authentication ← validateAuthentication row.authenticatedAt row.acr row.amr
  let scopes ← validateScopes row.scopes
  let resources ← validateResources isUri row.resources
  refuseIf (row.claims.asObject = none) .claimsShape
  validateClaimsLocales row.claimsLocales
  let authorizationDetails ← okOr row.authorizationDetails.asArray .authorizationDetailsShape
  let actorChain ← okOr row.actorChain.asArray .actorChainShape
  pure
    { id := row.id, client := row.client, user := row.user, subject := row.subject, scopes
      authorizationDetails, resources, actorChain, parent := row.parent, parentRevision := none
      task := none, session := row.session, createdAt := row.createdAt
      authorityRevision := "00000000-0000-0000-0000-000000000000", expiresAt := row.expiresAt
      claimedAt := row.claimedAt, revokedAt := row.revokedAt, revocationReason
      claims := row.claims, claimsLocales := row.claimsLocales, authentication
      updatedAt := row.updatedAt }

end GrantRecord

/-! ### The row of a grant -/

namespace ConsentGrant

/-- The row a grant is written to. -/
def record (grant : ConsentGrant) : GrantRecord :=
  { id := grant.id, client := grant.client, user := grant.user, subject := grant.subject
    scopes := grant.scopes.sort (· ≤ ·), claims := grant.claims
    claimsLocales := grant.claimsLocales, authorizationDetails := .arr grant.authorizationDetails
    resources := grant.resources.sort (· ≤ ·), actorChain := .arr grant.actorChain
    parent := grant.parent, session := grant.session
    authenticatedAt := grant.authentication.map (·.authenticatedAt)
    acr := grant.authentication.bind (·.acr)
    amr := grant.authentication.elim [] fun authentication =>
      authentication.amr.map AuthenticationMethod.asStr
    createdAt := grant.createdAt, updatedAt := grant.updatedAt, expiresAt := grant.expiresAt
    claimedAt := grant.claimedAt, revokedAt := grant.revokedAt
    revocationReason := grant.revocationReason.map RevocationReason.asStr }

/-- What a grant authorizes keeps to the bounds of a row. -/
structure Bounded (isUri : String → Bool) (grant : ConsentGrant) : Prop where
  fewScopes : grant.scopes.card ≤ Grant.maxScopes
  scopes : ∀ scope ∈ grant.scopes, GrantRecord.validateScope scope = .ok ()
  fewResources : grant.resources.card ≤ Grant.maxResources
  resources : ∀ resource ∈ grant.resources, isUri resource = true
  claims : ∃ members, grant.claims = .obj members
  fewLocales : grant.claimsLocales.length ≤ Grant.maxClaimsLocales
  locales : ∀ tag ∈ grant.claimsLocales,
    tag.utf8ByteSize ≤ Grant.maxLocaleLen ∧ GrantRecord.isLanguageTag tag = true

/-- The stamps of a grant fit together. -/
structure Coherent (grant : ConsentGrant) : Prop where
  revocation : grant.revokedAt.isSome = grant.revocationReason.isSome
  expiry : ∀ expiresAt, grant.expiresAt = some expiresAt → grant.createdAt < expiresAt

/-- A grant as its row alone describes it. -/
def asRead (grant : ConsentGrant) : ConsentGrant :=
  { grant with
    parentRevision := none
    task := none
    authorityRevision := "00000000-0000-0000-0000-000000000000" }

variable {grant : ConsentGrant} {isUri : String → Bool}

theorem validateRevocation_record {reason : Option RevocationReason} :
    GrantRecord.validateRevocation grant.revokedAt
        (grant.revocationReason.map RevocationReason.asStr) = .ok reason ↔
      grant.revokedAt.isSome = grant.revocationReason.isSome ∧ reason = grant.revocationReason := by
  cases grant.revokedAt <;> cases grant.revocationReason <;>
    simp [GrantRecord.validateRevocation, RevocationReason.parse_asStr, okOr, eq_comm]

theorem validateAuthentication_record (authentication : Option GrantAuthentication) :
    GrantRecord.validateAuthentication (authentication.map (·.authenticatedAt))
        (authentication.bind (·.acr))
        (authentication.elim [] fun held => held.amr.map AuthenticationMethod.asStr) =
      .ok authentication := by
  cases authentication with
  | none => rfl
  | some =>
    simp [GrantRecord.validateAuthentication, AuthenticationMethod.parse_asStr]

/-- **Which rows come back**: those of the grants that are bounded and coherent, as they were. -/
theorem validate_record {result : ConsentGrant} :
    grant.record.validate isUri = .ok result ↔
      grant.Bounded isUri ∧ grant.Coherent ∧ result = grant.asRead := by
  have hcls : ¬grant.claims.asObject = none ↔ ∃ ms, grant.claims = .obj ms := by
    simp [Option.eq_none_iff_forall_ne_some]
  have hexp : ¬grant.expiresAt.any (· ≤ grant.createdAt) = true ↔
      ∀ expiresAt, grant.expiresAt = some expiresAt → grant.createdAt < expiresAt := by
    cases grant.expiresAt <;> simp
  simp only [GrantRecord.validate, bind_ok, refuseIf_ok, okOr_ok, pure_ok]
  simp only [record, validateRevocation_record, validateAuthentication_record, Except.ok.injEq,
    GrantRecord.validateScopes, GrantRecord.validateResources, GrantRecord.validateClaimsLocales,
    bind_ok, refuseIf_ok, forM_ok, pure_ok, exists_const, not_lt, Bool.not_eq_false,
    Finset.length_sort, Finset.mem_sort, Finset.sort_toFinset, hcls, asArray, Option.some.injEq]
  constructor
  · rintro ⟨_, ⟨hrev, rfl⟩, hexpi, _, rfl, _, ⟨hfew, hscs, rfl⟩, _,
      ⟨hfe, hrs, rfl⟩, hobj, ⟨_, hlen, hloc⟩, _, rfl, _, rfl,
      rfl⟩
    have hfewL := not_lt.1 (refuseIf_ok.1 hlen)
    exact ⟨⟨hfew, hscs, hfe, hrs, hobj, hfewL, hloc⟩, ⟨hrev, hexp.1 hexpi⟩, rfl⟩
  · rintro ⟨hbdd, hcoh, rfl⟩
    exact ⟨_, ⟨hcoh.revocation, rfl⟩, hexp.2 hcoh.expiry, _, rfl, _,
      ⟨hbdd.fewScopes, hbdd.scopes, rfl⟩, _,
      ⟨hbdd.fewResources, hbdd.resources, rfl⟩, hbdd.claims,
      ⟨(), refuseIf_ok.2 (not_lt.2 hbdd.fewLocales), hbdd.locales⟩, _, rfl, _, rfl, rfl⟩

end ConsentGrant

end AsteriusIdp
