import AsteriusIdp.Issuance.Authority

/-!
# Minting at code redemption and at refresh

Two paths mint an access token for a grant of a person.  Both decide the audience and the scopes
its resource servers understand, prepare the grant for a task, build the claims and have them
signed.  The code path mints for the scopes of the grant; a refresh mints from a copy of the grant
that is narrowed to the scopes of the request.

* `Minting.redeem_scope`: a token of the code path carries what its audience understands.
* `Minting.refresh_scope`: a token of a refresh carries the scopes of the request, whatever its
  audience understands.
* `Minting.refresh_permitted_iff`: so it carries what its audience understands exactly if that is
  all of them.
-/

namespace AsteriusIdp

/-- Whether a token can only be used for claims about the person. -/
def Targeting.isIdentityOnlyFor (targeting : Targeting) (issuer : String) : Bool :=
  targeting.audience = {issuer} ∧ "openid" ∈ targeting.scopes ∧
    ∀ scope ∈ targeting.scopes,
      scope ∈ ["openid", "profile", "email", "address", "phone", "offline_access"]

namespace Issuance

open Fallible

/-- The audience and the permissions that roles are read for. -/
def roleGrant (grant : Grant) (targeting : Targeting) : Grant :=
  { grant with resources := targeting.audience, scopes := targeting.scopes }

/-- Takes the authority to mint from a grant; the stamp of a grant under a task is left to the
signature. -/
def claimForIssuance (store : Store) (id : String) (now : ℤ) : Except Failure Store :=
  if (store.tasks id).isSome then do
    let row ← okOr (store.grants id) .server
    refuseIf (¬row.mayIssue now) taskRefused
    pure store
  else orFail .server (store.claim id now)

/-- What a token request brings to the mint, and the tables it meets. -/
structure Minting where
  store : Store
  /-- The reading of the clock the handler took. -/
  now : ℤ
  /-- The clock of the signing transaction. -/
  clock : ℤ
  /-- The issuer of the tenant. -/
  issuer : String
  client : Client
  /-- The deployment gives this client only tokens about the person. -/
  identityOnly : Bool
  /-- The resource servers of the tenant, its own first. -/
  servers : List ResourceServer
  /-- The `resource` parameters. -/
  targets : Finset String
  /-- The thumbprint of the key the token is bound to. -/
  confirmation : Option String
  /-- The tenant's access token lifetime. -/
  accessTokenLifetime : ℤ
  /-- The tenant's cap on the tokens of agents. -/
  tenantCap : Option ℤ
  /-- Whether the tenant's tokens carry `grant_id`. -/
  grantIdClaim : Bool
  /-- What the access policy, the device registry and the session decide. -/
  permitted : Grant → Except Failure Unit
  /-- When the first temporary role of the grant ends. -/
  heldRoles : Grant → Except Failure (Option ℤ)
  freshJti : String

namespace Minting

/-- The resource servers as the registry knows them. -/
def registry (minting : Minting) : ResourceRegistry := .new minting.servers

/-- The audience and the scopes of a token for a grant. -/
def target (parseUrl : UrlParser) (minting : Minting) (grant : Grant) :
    Except Failure Targeting := do
  let result ← orFail (.client "invalid_target" targetRefused)
    (targeting parseUrl minting.registry minting.client.resources grant minting.targets)
  refuseIf (minting.identityOnly ∧ ¬result.isIdentityOnlyFor minting.issuer)
    (.client "invalid_target" targetRefused)
  pure result

/-- The builder with what both paths put into it. -/
def builder (minting : Minting) (grant : Grant) (audience : Finset String)
    (deadline : Option ℤ) (lifetime : ℤ) : AccessToken :=
  let token := AccessToken.new grant audience minting.confirmation minting.freshJti minting.now
  { (token.withGrantIdWhen minting.grantIdClaim).forLifetime lifetime with
    temporaryDeadline := deadline }

/-- Builds the claims and has them signed. -/
def sign (minting : Minting) (store : Store) (grant : Grant) (token : AccessToken) :
    Except Failure (TokenClaims × Store) := do
  let claims ← orFail .server token.build
  orFail taskRefused (signAccess store grant claims minting.clock)

/-- Prepares a grant for the task it is under. -/
def prepared (parseUrl : UrlParser) (minting : Minting) (grant : Grant) :
    Except Failure (Grant × ℤ) :=
  orFail taskRefused (prepare parseUrl minting.store grant minting.accessTokenLifetime
    minting.tenantCap none minting.now minting.accessTokenLifetime)

/-- What remains of a redemption once the grant is claimed. -/
def signCode (parseUrl : UrlParser) (minting : Minting) (store : Store) (grant : Grant)
    (targeting : Targeting) : Except Failure (TokenClaims × Store) := do
  let deadline ← minting.heldRoles (roleGrant grant targeting)
  let (bound, lifetime) ← minting.prepared parseUrl grant
  minting.sign store bound
    ((minting.builder bound targeting.audience deadline lifetime).restrictedToScopes
      targeting.scopes)

/-- What remains of a refresh once the grant is claimed. -/
def signRefresh (parseUrl : UrlParser) (minting : Minting) (store : Store)
    (narrowed : Grant) : Except Failure (TokenClaims × Store) := do
  let targeting ← minting.target parseUrl narrowed
  minting.permitted (roleGrant narrowed targeting)
  let deadline ← minting.heldRoles (roleGrant narrowed targeting)
  let (bound, lifetime) ← minting.prepared parseUrl narrowed
  -- Nothing restricts this builder to the scopes of the targeting.
  minting.sign store bound (minting.builder bound targeting.audience deadline lifetime)

/-- The access token of a redeemed code. -/
def redeem (parseUrl : UrlParser) (minting : Minting) (grant : Grant) :
    Except Failure (TokenClaims × Store) := do
  let targeting ← minting.target parseUrl grant
  minting.permitted (roleGrant grant targeting)
  let claimed ← claimForIssuance minting.store grant.id minting.now
  { minting with store := claimed }.signCode parseUrl claimed grant targeting

/-- The access token of a refresh for the `effective` scopes. -/
def refresh (parseUrl : UrlParser) (minting : Minting) (grant : Grant)
    (effective : Finset String) : Except Failure (TokenClaims × Store) := do
  let claimed ← claimForIssuance minting.store grant.id minting.now
  { minting with store := claimed }.signRefresh parseUrl claimed { grant with scopes := effective }

/-! ### What the tokens carry -/

variable {parseUrl : UrlParser} {minting : Minting} {grant : Grant}

theorem target_spec {result : Targeting} (h : minting.target parseUrl grant = .ok result) :
    minting.registry.targets parseUrl minting.targets grant.resources minting.client.resources =
        .ok result.audience ∧
      result.scopes = minting.registry.permittedScopes result.audience grant.scopes := by
  simp only [target, bind_ok, orFail_ok, pure_ok] at h
  obtain ⟨_, htgt, -, -, rfl⟩ := h
  exact targeting_spec htgt

variable {signed : TokenClaims} {store after : Store}

/-- Signing keeps the scopes and the audience of the builder. -/
theorem sign_spec {token : AccessToken} (h : minting.sign store grant token = .ok (signed, after)) :
    signed.scope = token.scopes.getD token.grant.scopes ∧ signed.aud = token.audience := by
  simp only [sign, bind_ok, orFail_ok] at h
  obtain ⟨_, hbu, hsgd⟩ := h
  obtain ⟨hsc, haud, -⟩ := AccessToken.build_spec hbu
  obtain ⟨hsg, hsig, -⟩ := signAccess_spec hsgd
  exact ⟨hsg.trans hsc, hsig.trans haud⟩

theorem prepared_spec {bound : Grant} {lifetime : ℤ}
    (h : minting.prepared parseUrl grant = .ok (bound, lifetime)) :
    bound.id = grant.id ∧ bound.scopes = grant.scopes := by
  rw [prepared, orFail_ok] at h
  obtain ⟨hid, -, hscs, -⟩ := prepare_spec h
  exact ⟨hid, hscs⟩

theorem signCode_spec {targeting : Targeting}
    (h : minting.signCode parseUrl store grant targeting = .ok (signed, after)) :
    signed.scope = targeting.scopes ∩ grant.scopes ∧ signed.aud = targeting.audience := by
  simp only [signCode, bind_ok] at h
  obtain ⟨_, -, ⟨_, _⟩, hpp, hsg⟩ := h
  obtain ⟨hsc, haud⟩ := sign_spec hsg
  rw [← (prepared_spec hpp).2]
  exact ⟨hsc, haud⟩

theorem signRefresh_spec (h : minting.signRefresh parseUrl store grant = .ok (signed, after)) :
    signed.scope = grant.scopes ∧ minting.registry.targets parseUrl minting.targets
      grant.resources minting.client.resources = .ok signed.aud := by
  simp only [signRefresh, bind_ok] at h
  obtain ⟨_, htgt, -, -, _, -, ⟨_, _⟩, hpp, hsg⟩ := h
  obtain ⟨hsc, haud⟩ := sign_spec hsg
  refine ⟨hsc.trans (prepared_spec hpp).2, ?_⟩
  rw [haud]
  exact (target_spec htgt).1

/-- A refresh gets no token from a grant that is revoked. -/
theorem signRefresh_live {row : Grant}
    (h : minting.signRefresh parseUrl store grant = .ok (signed, after))
    (hrow : store.grants grant.id = some row) : row.revokedAt = none := by
  simp only [signRefresh, sign, bind_ok, orFail_ok] at h
  obtain ⟨_, -, _, -, _, -, ⟨_, _⟩, hpp, _, -, hsgd⟩ := h
  rw [← (prepared_spec hpp).1] at hrow
  exact signAccess_live hsgd hrow

/-- A token of the code path carries the scopes of the grant that every resource server of its
audience understands. -/
theorem redeem_scope (h : minting.redeem parseUrl grant = .ok (signed, after)) :
    signed.scope = minting.registry.permittedScopes signed.aud grant.scopes := by
  simp only [redeem, bind_ok] at h
  obtain ⟨result, htgt, -, -, _, -, hsg⟩ := h
  obtain ⟨hsc, haud⟩ := signCode_spec hsg
  obtain ⟨-, hscs⟩ := target_spec htgt
  have hsub : result.scopes ⊆ grant.scopes :=
    hscs ▸ ResourceRegistry.permittedScopes_subset
  calc signed.scope = result.scopes ∩ grant.scopes := hsc
    _ = result.scopes := Finset.inter_eq_left.2 hsub
    _ = minting.registry.permittedScopes signed.aud grant.scopes := by rw [haud, hscs]

/-- A token of a refresh carries the scopes of the request, and has the audience they were asked
for. -/
theorem refresh_scope {effective : Finset String}
    (h : minting.refresh parseUrl grant effective = .ok (signed, after)) :
    signed.scope = effective ∧ minting.registry.targets parseUrl minting.targets grant.resources
      minting.client.resources = .ok signed.aud := by
  simp only [refresh, bind_ok] at h
  obtain ⟨_, -, hsg⟩ := h
  exact signRefresh_spec hsg

/-- Every resource server that the request resolves to understands all of the scopes. -/
def Understood (parseUrl : UrlParser) (minting : Minting) (grant : Grant)
    (scopes : Finset String) : Prop :=
  ∀ targets, minting.registry.targets parseUrl minting.targets grant.resources
      minting.client.resources = .ok targets →
    ∀ scope ∈ scopes, ∀ target ∈ targets,
      (minting.registry.servers.lookup target).all (·.permits scope)

/-- A refreshed token carries the scopes that its audience understands, as a token of the code
path does, exactly if the resource servers it is for understand every scope of the request. -/
theorem refresh_permitted_iff {effective : Finset String} {signed : TokenClaims} {after : Store}
    (h : minting.refresh parseUrl grant effective = .ok (signed, after)) :
    (signed.scope = minting.registry.permittedScopes signed.aud effective ∧
        ∀ token stored, minting.redeem parseUrl { grant with scopes := effective } =
          .ok (token, stored) → token.aud = signed.aud → signed.scope = token.scope) ↔
      minting.Understood parseUrl grant effective := by
  obtain ⟨hsc, htg⟩ := refresh_scope h
  rw [hsc]
  constructor
  · rintro ⟨hpm, -⟩ _ hrsv scope hmem
    cases htg.symm.trans hrsv
    rw [hpm] at hmem
    exact (ResourceRegistry.mem_permittedScopes.1 hmem).2
  · intro hund
    have hpm : effective = minting.registry.permittedScopes signed.aud effective := by
      ext scope
      rw [ResourceRegistry.mem_permittedScopes]
      exact ⟨fun hmem => ⟨hmem, hund _ htg scope hmem⟩, And.left⟩
    refine ⟨hpm, fun token stored hred haud => ?_⟩
    rw [redeem_scope hred, haud]
    exact hpm

/-! ### A resource server that only reads -/

/-- A request for the grant at one API that understands only some scopes. -/
def atApi (understood : Option (Finset String)) : Minting :=
  { store := exampleStore
    now := seconds 1
    clock := seconds 1
    issuer := "https://issuer.example"
    client := { id := "app", tokenBinding := .dpop, scopes := {"read", "write"}, resources := ∅,
                agent := none }
    identityOnly := false
    servers := [{ identifier := "https://api.example/", scopes := understood }]
    targets := ∅
    confirmation := some "key"
    accessTokenLifetime := seconds 300
    tenantCap := none
    grantIdClaim := true
    permitted := fun _ => .ok ()
    heldRoles := fun _ => .ok none
    freshJti := "jti" }

/-- What such a request gets. -/
def apiToken (scope : Finset String) : TokenClaims :=
  { exp := 301, iat := 1, aud := {"https://api.example/"}, sub := "app", clientId := "app",
    jti := "jti", jkt := some "key", scope, authorizationDetails := [], act := none,
    mayAct := none, grantId := some "grant", task := none }

theorem refresh_permitted_atApi :
    (∃ after, (atApi (some {"read"})).refresh exampleUrl readWriteGrant {"read"} =
        .ok (apiToken {"read"}, after)) ∧ (apiToken {"read"}).scope =
        (atApi (some {"read"})).registry.permittedScopes (apiToken {"read"}).aud {"read"} := by
  have hrfr : ∃ after, (atApi (some {"read"})).refresh exampleUrl readWriteGrant {"read"} =
      .ok (apiToken {"read"}, after) := ⟨_, by rfl⟩
  obtain ⟨after, h⟩ := hrfr
  have hund : (atApi (some {"read"})).Understood exampleUrl readWriteGrant {"read"} := by
    intro targets htg
    have hrsv : targets = {"https://api.example/"} := by
      cases ((refresh_scope h).2).symm.trans htg
      rfl
    rw [hrsv]
    decide
  exact ⟨⟨after, h⟩, ((refresh_permitted_iff h).2 hund).1⟩

/-- The API only understands `read`: a redeemed code gets a token for reading there, and a refresh
for the same audience one that also carries `write`. -/
theorem refresh_carries_unknown_scope :
    (∃ after, (atApi (some {"read"})).redeem exampleUrl readWriteGrant =
        .ok (apiToken {"read"}, after)) ∧
      (∃ after, (atApi (some {"read"})).refresh exampleUrl readWriteGrant {"read", "write"} =
        .ok (apiToken {"read", "write"}, after)) ∧
      (atApi (some {"read"})).registry.permittedScopes (apiToken {"read", "write"}).aud
        {"read", "write"} = {"read"} ∧ ¬(apiToken {"read", "write"}).scope ⊆ {"read"} :=
  ⟨⟨_, by rfl⟩, ⟨_, by rfl⟩, by decide, by decide⟩

end Minting

end Issuance

end AsteriusIdp
