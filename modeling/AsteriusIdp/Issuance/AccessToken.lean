import AsteriusIdp.Domain.ResourceServer
import AsteriusIdp.Time

/-!
# Access tokens

What goes into an access token: the scopes a request narrows to (`requestedScopes`), the audience
and the scopes its resource servers understand (`targeting`), and the claims that the builder
writes (`AccessToken.build`).  The builder's default scope set is that of the whole grant; an
issuance path narrows it with `restrictedToScopes`.

* `requestedScopes_subset`: a request never widens what was granted.
* `AccessToken.build_spec`: what the claims of a token say about its grant and its lifetime.
-/

namespace AsteriusIdp

open Fallible

/-! ### Narrowing a scope set -/

/-- Why the `scope` of a request was refused. -/
inductive ScopeError where
  | notGranted
  | notAScopeToken
  | tooMany
  deriving DecidableEq

/-- One token of a requested scope. -/
def addRequestedScope (granted requested : Finset String) (token : String) :
    Except ScopeError (Finset String) := do
  refuseIf (¬isScopeToken token) .notAScopeToken
  refuseIf (token ∉ granted) .notGranted
  refuseIf ((insert token requested).card > 64) .tooMany
  pure (insert token requested)

/-- The scopes of a `scope` parameter that is present. -/
def readScopes (raw : String) (granted : Finset String) : Except ScopeError (Finset String) := do
  let requested ← (Text.splitWhitespace raw).foldlM (addRequestedScope granted) ∅
  pure (if requested = ∅ then granted else requested)

/-- The scopes a request may have out of those granted: all of them, or the subset it names. -/
def requestedScopes (raw : Option String) (granted : Finset String) :
    Except ScopeError (Finset String) := do
  refuseIf (∃ scope ∈ granted, ¬isScopeToken scope) .notAScopeToken
  match raw with
  | none => pure granted
  | some raw => readScopes raw granted

variable {granted requested result scopes : Finset String}

theorem addRequestedScope_ok {token : String}
    (h : addRequestedScope granted requested token = .ok result) :
    token ∈ granted ∧ result = insert token requested := by
  simp only [addRequestedScope, bind_ok, refuseIf_ok, pure_ok, not_not] at h
  obtain ⟨-, -, -, hgrd, -, -, rfl⟩ := h
  exact ⟨hgrd, rfl⟩

theorem foldlM_addRequestedScope {tokens : List String}
    (h : tokens.foldlM (addRequestedScope granted) requested = .ok result) :
    (∀ token ∈ tokens, token ∈ granted) ∧ result = requested ∪ tokens.toFinset := by
  induction tokens generalizing requested with
  | nil =>
    rw [List.foldlM_nil, pure_ok] at h
    simp [h]
  | cons token rest ih =>
    rw [List.foldlM_cons, bind_ok] at h
    obtain ⟨mid, hmid, hrs⟩ := h
    obtain ⟨htok, rfl⟩ := addRequestedScope_ok hmid
    obtain ⟨hall, rfl⟩ := ih hrs
    refine ⟨by simpa using ⟨htok, hall⟩, ?_⟩
    rw [List.toFinset_cons, Finset.insert_union, Finset.union_insert]

variable {raw : Option String}

/-- A request gets what it names, or everything that was granted if it names nothing. -/
theorem requestedScopes_spec (h : requestedScopes raw granted = .ok scopes) :
    (scopes = granted ∧ ∀ text ∈ raw, Text.splitWhitespace text = []) ∨
      ∃ text ∈ raw, scopes = (Text.splitWhitespace text).toFinset ∧ scopes ⊆ granted := by
  simp only [requestedScopes, bind_ok] at h
  obtain ⟨-, -, h⟩ := h
  cases raw with
  | none => exact .inl ⟨(pure_ok.1 h).symm, by simp⟩
  | some text =>
    simp only [readScopes, bind_ok, pure_ok] at h
    obtain ⟨_, hfo, rfl⟩ := h
    obtain ⟨hall, rfl⟩ := foldlM_addRequestedScope hfo
    split_ifs with hemp
    · refine .inl ⟨rfl, fun text' htx => ?_⟩
      cases htx
      exact List.toFinset_eq_empty_iff _ |>.1 hemp
    · refine .inr ⟨text, rfl, rfl, fun scope hsc => hall scope (List.mem_toFinset.1 hsc)⟩

theorem requestedScopes_subset
    (h : requestedScopes raw granted = .ok scopes) : scopes ⊆ granted := by
  rcases requestedScopes_spec h with ⟨rfl, -⟩ | ⟨-, -, -, hsub⟩
  · exact subset_rfl
  · exact hsub

/-! ### The audience of a token -/

/-- The audience of a token and the scopes it may carry there. -/
structure Targeting where
  audience : Finset String
  scopes : Finset String

section

variable (parseUrl : UrlParser)

/-- An audience is a set of absolute URIs without a fragment. -/
def Audience.new (resources : Finset String) : Except InvalidTarget (Finset String) := do
  refuseIf (∃ resource ∈ resources, ¬(parseUrl resource).any fun parsed =>
    parsed.fragment.isNone ∧ ¬parsed.cannotBeABase) .invalidTarget
  refuseIf (resources = ∅ ∨ resources.card > Grant.maxResources) .invalidTarget
  pure resources

/-- Decides the audience and the scopes of a token for a grant. -/
def targeting (registry : ResourceRegistry) (defaults : Finset String) (grant : Grant)
    (requested : Finset String) : Except InvalidTarget Targeting := do
  let targets ← registry.targets parseUrl requested grant.resources defaults
  let scopes := registry.permittedScopes targets grant.scopes
  let audience ← Audience.new parseUrl targets
  pure { audience, scopes }

end

theorem targeting_spec {parseUrl : UrlParser} {registry : ResourceRegistry}
    {defaults : Finset String} {grant : Grant} {result : Targeting}
    (h : targeting parseUrl registry defaults grant requested = .ok result) :
    registry.targets parseUrl requested grant.resources defaults = .ok result.audience ∧
    result.scopes = registry.permittedScopes result.audience grant.scopes := by
  simp only [targeting, Audience.new, bind_ok, pure_ok] at h
  obtain ⟨_, htg, _, ⟨-, -, -, -, rfl⟩, rfl⟩ := h
  exact ⟨htg, rfl⟩

/-! ### The builder -/

/-- Why a token was not built. -/
inductive IssuanceError where
  | lifetime
  | audienceIsTheClient
  | actorChain
  | emptySubject
  | scope
  deriving DecidableEq

/-- The claims of an access token that the server reads back. -/
structure TokenClaims where
  /-- Seconds. -/
  exp : ℤ
  /-- Seconds. -/
  iat : ℤ
  aud : Finset String
  sub : String
  clientId : String
  jti : String
  /-- The thumbprint in `cnf.jkt`. -/
  jkt : Option String
  /-- The scope tokens of the space-delimited claim, which is absent if there are none. -/
  scope : Finset String
  authorizationDetails : List Json
  act : Option Json
  mayAct : Option Json
  grantId : Option String
  /-- `task_id` and `task_approval_revision`. -/
  task : Option (String × ℤ)

/-- A token under construction. -/
structure AccessToken where
  grant : Grant
  audience : Finset String
  confirmation : Option String
  jti : String
  issuedAt : ℤ
  lifetime : ℤ
  grantIdClaim : Bool
  /-- The scopes of the token; without them it carries those of its grant. -/
  scopes : Option (Finset String)
  /-- When the first temporary role of the token ends. -/
  temporaryDeadline : Option ℤ

/-- One more actor around those already nested. -/
def nestActor (nested : Option Json) (actor : Json) : Except IssuanceError (Option Json) := do
  let members ← okOr actor.asObject .actorChain
  refuseIf (Entries.contains members "act") .actorChain
  pure (some (.obj (match nested with
    | some inner => Entries.insert members "act" inner
    | none => members)))

/-- The nested `act` claim of a chain, its first actor outermost. -/
def actorClaim (chain : List Json) : Except IssuanceError (Option Json) := do
  refuseIf (chain.length > 8) .actorChain
  chain.reverse.foldlM nestActor none

namespace AccessToken

/-- Five minutes. -/
def defaultLifetime : ℤ := seconds 300

/-- Fifteen minutes. -/
def maxLifetime : ℤ := seconds 900

/-- A token of a grant. -/
def new (grant : Grant) (audience : Finset String) (confirmation : Option String) (jti : String)
    (issuedAt : ℤ) : AccessToken :=
  { grant, audience, confirmation, jti, issuedAt, lifetime := defaultLifetime,
    grantIdClaim := false, scopes := none, temporaryDeadline := none }

/-- Narrow the token to some scopes of its grant. -/
def restrictedToScopes (token : AccessToken) (scopes : Finset String) : AccessToken :=
  { token with scopes := some (scopes ∩ token.grant.scopes) }

/-- With a lifetime. -/
def forLifetime (token : AccessToken) (lifetime : ℤ) : AccessToken := { token with lifetime }

/-- With `grant_id`, if asked for. -/
def withGrantIdWhen (token : AccessToken) (carried : Bool) : AccessToken :=
  { token with grantIdClaim := token.grantIdClaim || carried }

/-- The `scope` claim. -/
def scopeClaim (token : AccessToken) : Except IssuanceError (Finset String) := do
  let scopes := token.scopes.getD token.grant.scopes
  refuseIf (∃ scope ∈ scopes, ¬isScopeToken scope) .scope
  pure scopes

/-- The instant the token ends, before it is cut to seconds. -/
def expiresAt (token : AccessToken) : ℤ :=
  match token.temporaryDeadline with
  | some deadline => min deadline (token.issuedAt + token.lifetime)
  | none => token.issuedAt + token.lifetime

/-- The claims, if they are in order. -/
def build (token : AccessToken) : Except IssuanceError TokenClaims := do
  refuseIf (token.lifetime ≤ 0 ∨ token.lifetime > maxLifetime) .lifetime
  refuseIf (unixTimestamp token.expiresAt ≤ unixTimestamp token.issuedAt) .lifetime
  refuseIf (token.grant.client ∈ token.audience) .audienceIsTheClient
  refuseIf (token.grant.subject = some "") .emptySubject
  let scope ← token.scopeClaim
  let act ← actorClaim token.grant.actorChain
  pure
    { exp := unixTimestamp token.expiresAt
      iat := unixTimestamp token.issuedAt
      aud := token.audience
      sub := token.grant.subject.getD token.grant.client
      clientId := token.grant.client
      jti := token.jti
      jkt := token.confirmation
      scope
      authorizationDetails := token.grant.authorizationDetails
      act
      mayAct := none
      grantId := if token.grantIdClaim then some token.grant.id else none
      task := none }

theorem expiresAt_le (token : AccessToken) : token.expiresAt ≤ token.issuedAt + token.lifetime := by
  unfold expiresAt
  split
  · exact min_le_right _ _
  · exact le_rfl

variable {token : AccessToken} {claims : TokenClaims}

theorem lifetime_le_of_build (h : token.build = .ok claims) : token.lifetime ≤ maxLifetime := by
  simp only [build, bind_ok, refuseIf_ok] at h
  obtain ⟨-, hlf, -⟩ := h
  exact not_lt.1 fun hlo => hlf (.inr hlo)

theorem build_spec (h : token.build = .ok claims) :
    claims.scope = token.scopes.getD token.grant.scopes ∧ claims.aud = token.audience ∧
    claims.exp = unixTimestamp token.expiresAt ∧ claims.iat = unixTimestamp token.issuedAt ∧
    claims.clientId = token.grant.client ∧ claims.jti = token.jti ∧
    claims.jkt = token.confirmation ∧
    claims.grantId = (if token.grantIdClaim then some token.grant.id else none) ∧
    claims.task = none ∧ actorClaim token.grant.actorChain = .ok claims.act := by
  simp only [build, scopeClaim, bind_ok, pure_ok] at h
  obtain ⟨-, -, -, -, -, -, -, -, _, ⟨-, -, rfl⟩, _, hact, rfl⟩ := h
  exact ⟨rfl, rfl, rfl, rfl, rfl, rfl, rfl, rfl, rfl, hact⟩

end AccessToken

end AsteriusIdp
