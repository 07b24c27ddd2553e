import AsteriusIdp.Issuance.Authority

/-!
# Token exchange

An agent presents an access token of this server and gets a token that records it as the party
acting.  The subject token and the grant behind it set a ceiling for the scopes, the resources and
the lifetime; the exchange creates a child grant under that ceiling and signs a token for it.
-/

namespace AsteriusIdp.Issuance

open Fallible AgentTask

/-- The one answer about a subject token that cannot be exchanged. -/
def subjectRefused : Failure := .client "invalid_grant" "the subject token cannot be exchanged"

/-- One exchange request, and the tables it meets. -/
structure Exchange where
  store : Store
  /-- The reading of the clock the handler took. -/
  now : ℤ
  /-- The clock of the signing transaction. -/
  clock : ℤ
  /-- The client that asks. -/
  client : Client
  /-- The thumbprint of the key the request proves. -/
  proofKey : Option String
  /-- The `scope` parameter. -/
  scope : Option String
  /-- The `audience` and `resource` parameters. -/
  targets : Finset String
  authorizationDetails : Option (List Json)
  /-- The tenant's access token lifetime. -/
  accessTokenLifetime : ℤ
  /-- The tenant's cap on the tokens of agents. -/
  tenantCap : Option ℤ
  /-- Whether the tenant's tokens carry `grant_id`. -/
  grantIdClaim : Bool
  /-- The resource servers of the tenant, its own first. -/
  servers : List ResourceServer
  /-- The decision of the access policy and of the device registry. -/
  permitted : Grant → Except Failure Unit
  freshGrantId : String
  freshRevision : String
  freshJti : String

/-- What the subject token contributes: nothing of the issued token exceeds it. -/
structure Ceiling where
  subject : Option String
  user : Option String
  parent : String
  parentRevision : String
  scopes : Finset String
  /-- Empty where the subject named none, and the actor's own defaults apply. -/
  resources : Finset String
  chain : List Json
  /-- What is left of the subject token's life. -/
  remaining : ℤ

/-- The scopes an exchanged token never carries. -/
def notDelegatedScopes : List String := ["openid", "offline_access"]

/-- `may_act`, if it is there, names the actor and nothing else. -/
def mayActAuthorizes (mayAct : Option Json) (actor : String) : Bool :=
  match mayAct with
  | none => true
  | some value => value.asObject.any fun members => members ≠ [] ∧
      ∀ e ∈ members, e.1 ∈ ["client_id", "sub"] ∧ e.2.asStr = some actor

/-- The chain with the actor in front. -/
def extendChain (previous : List Json) (actor : String) (maxDepth : ℕ) :
    Except Failure (List Json) := do
  refuseIf (∃ prior ∈ previous, prior.asObject.isNone) .server
  refuseIf (previous.length + 1 > maxDepth) (.client "invalid_request"
    "the delegation chain is deeper than this client's policy permits")
  pure (.obj [("client_id", .str actor)] :: previous)

namespace Exchange

/-- Whether the caller may exchange the token: it proves the token's key, or the token was minted
for a client whose tokens may travel. -/
def mayExchange (exchange : Exchange) (token : TokenClaims) : Except Failure Unit := do
  let boundTo ← okOr token.jkt subjectRefused
  refuseIf (exchange.proofKey ≠ some boundTo ∧ (token.clientId = exchange.client.id ∨
    ¬(exchange.store.clients token.clientId).any fun holder =>
      holder.agent.any (·.exchangeable))) subjectRefused

/-- The grant the subject token was minted from. -/
def parentId (exchange : Exchange) (token : TokenClaims) : Option String :=
  match token.task with
  | some (task, revision) => activeLink exchange.store token.jti task revision exchange.clock
  | none => token.grantId

/-- The authorization behind the subject token. -/
def parent (exchange : Exchange) (token : TokenClaims) : Option Grant :=
  (exchange.parentId token).bind exchange.store.grants

/-- The scopes and resources of the authorization; a task token narrows them to its own. -/
def ceilingSets (token : TokenClaims) (parent : Grant) :
    Except Failure (Finset String × Finset String) :=
  match token.task with
  | some _ => do
    refuseIf (token.scope = ∅) subjectRefused
    pure (parent.scopes ∩ token.scope, parent.resources ∩ token.aud)
  | none => pure (parent.scopes, parent.resources)

/-- Reads a subject token that is an access token. -/
def subject (exchange : Exchange) (token : TokenClaims) : Except Failure Ceiling := do
  refuseIf (token.exp ≤ unixTimestamp exchange.now) subjectRefused
  refuseIf (¬mayActAuthorizes token.mayAct exchange.client.id) subjectRefused
  let remaining := seconds token.exp - exchange.now
  refuseIf (remaining ≤ 0) subjectRefused
  refuseIf (token.jti ∈ exchange.store.denylist) subjectRefused
  exchange.mayExchange token
  let id ← okOr (exchange.parentId token) subjectRefused
  let parent ← okOr (exchange.store.grants id) subjectRefused
  refuseIf (parent.status exchange.now ≠ .active) subjectRefused
  let (scopes, resources) ← ceilingSets token parent
  pure
    { subject := some token.sub, user := parent.user, parent := id,
      parentRevision := parent.authorityRevision, scopes, resources, chain := parent.actorChain,
      remaining }

/-- A scope the client may be delegated at all. -/
def delegable (client : Client) (scope : String) : Bool :=
  scope ∈ client.scopes ∧ client.limits.scopes.all (scope ∈ ·) ∧ scope ∉ notDelegatedScopes

/-- The scopes of the issued token's grant. -/
def scopes (exchange : Exchange) (ceiling : Ceiling) : Except Failure (Finset String) := do
  let permitted := ceiling.scopes.filter (delegable exchange.client ·)
  let scopes ← orFail (.client "invalid_scope"
    "the requested scope exceeds what the subject token carries")
    (requestedScopes exchange.scope permitted)
  refuseIf (∃ scope ∈ scopes, exchange.client.agent.any (scope ∈ ·.humanApprovalScopes))
    (.client "invalid_scope"
      "this scope requires a person to approve it, and a delegation has none")
  pure scopes

/-- The smallest of the tenant's lifetime, the agent's cap and what is left of the subject. -/
def lifetime (exchange : Exchange) (ceiling : Ceiling) : Except Failure ℤ := do
  let lifetime := min (exchange.client.cap exchange.accessTokenLifetime) ceiling.remaining
  refuseIf (lifetime ≤ 0) subjectRefused
  pure lifetime

/-- The `act` chain of the issued token. -/
def chain (exchange : Exchange) (ceiling : Ceiling) : Except Failure (List Json) :=
  if exchange.client.limits.impersonation then pure ceiling.chain
  else extendChain ceiling.chain exchange.client.id exchange.client.limits.maxDelegationDepth

/-- The child grant, before its audience is decided. -/
def childGrant (exchange : Exchange) (ceiling : Ceiling) (scopes : Finset String)
    (chain : List Json) (lifetime : ℤ) : Grant :=
  { Grant.new exchange.freshGrantId exchange.client.id exchange.freshRevision exchange.now with
    user := ceiling.user
    subject := ceiling.subject
    scopes
    resources := ceiling.resources
    actorChain := chain
    parent := some ceiling.parent
    parentRevision := some ceiling.parentRevision
    claimedAt := some exchange.now
    expiresAt := some (exchange.now + lifetime) }

/-- The audience of the issued token, inside what the agent may name. -/
def target (parseUrl : UrlParser) (exchange : Exchange) (grant : Grant) :
    Except Failure Targeting := do
  let result ← orFail (.client "invalid_target" targetRefused)
    (targeting parseUrl (.new exchange.servers) exchange.client.resources grant exchange.targets)
  refuseIf (¬exchange.client.limits.audiences.all (result.audience ⊆ ·))
    (.client "invalid_target" targetRefused)
  pure result

/-- Stores the child grant and signs the token for it. -/
def mint (exchange : Exchange) (grant : Grant) (targeting : Targeting) (lifetime : ℤ) :
    Except Failure (TokenClaims × Store) := do
  refuseIf (¬grant.mayIssue exchange.now) .server
  let claims ← orFail .server
    ((((AccessToken.new grant targeting.audience exchange.proofKey exchange.freshJti
      exchange.now).restrictedToScopes targeting.scopes).withGrantIdWhen
      exchange.grantIdClaim).forLifetime lifetime).build
  let stored ← orFail .server (createForIssuance exchange.store grant)
  orFail taskRefused (signAccess stored grant claims exchange.clock)

/-- Exchanges an access token. -/
def issue (parseUrl : UrlParser) (exchange : Exchange) (token : TokenClaims) :
    Except Failure (TokenClaims × Store) := do
  refuseIf (exchange.client.tokenBinding ≠ .dpop) (.client "invalid_request"
    "token exchange issues DPoP-bound tokens; this client's tokens are bound to a certificate")
  refuseIf exchange.proofKey.isNone .dpop
  let ceiling ← exchange.subject token
  let chain ← exchange.chain ceiling
  let scopes ← exchange.scopes ceiling
  let lifetime ← exchange.lifetime ceiling
  let child := exchange.childGrant ceiling scopes chain lifetime
  let targeting ← exchange.target parseUrl child
  let (grant, lifetime) ← orFail taskRefused
    (prepare parseUrl exchange.store { child with resources := targeting.audience }
      exchange.accessTokenLifetime exchange.tenantCap exchange.authorizationDetails exchange.now
      lifetime)
  exchange.permitted grant
  exchange.mint grant targeting lifetime

end Exchange

end AsteriusIdp.Issuance
