import AsteriusIdp.Domain.Grant
import AsteriusIdp.Time

/-!
# The tables behind issued credentials

Grants, authorization codes, refresh tokens, the denylist and the cut-offs of one tenant, and the
statements that write them.  Each function here is one SQL statement or one transaction, and so
one atomic step; `where` clauses are predicates of `Entries.updateWhere`.

A cut-off withdraws every access token that its principal was issued before some instant.  It is
kept until the last of those tokens has expired.
-/

namespace AsteriusIdp.Store

/-- The longest an access token lives. -/
def maxAccessTokenLifetime : ℤ := seconds 900

/-- Nothing issued to the principal before an instant is good any more. -/
structure Cutoff where
  revokedBefore : ℤ
  expiresAt : ℤ
  deriving DecidableEq

/-- What a refresh token is bound to. -/
inductive RefreshBinding where
  | dpop (jkt : String)
  | certificate (thumbprint : String)
  | bearer
  deriving DecidableEq

/-- A refresh token, stored under the digest of its value. -/
structure RefreshToken where
  grant : String
  client : String
  scopes : Finset String
  binding : RefreshBinding
  issuedAt : ℤ
  absoluteExpiresAt : ℤ
  idleExpiresAt : Option ℤ
  revokedAt : Option ℤ
  supersededAt : Option ℤ
  deriving DecidableEq

/-- An authorization code, stored under its digest. -/
structure AuthorizationCode where
  grant : String
  client : String
  expiresAt : ℤ
  consumedAt : Option ℤ
  deriving DecidableEq

/-- The tables of a tenant. -/
structure Tables where
  grants : Entries String Grant
  codes : Entries String AuthorizationCode
  refreshTokens : Entries String RefreshToken
  /-- Cut-offs of clients. -/
  clientCutoffs : Entries String Cutoff
  /-- Cut-offs of grants. -/
  grantCutoffs : Entries String Cutoff
  denylist : Finset String
  /-- When the task of a grant ends, for the grants that are under one. -/
  taskExpiries : Entries String ℤ

/-- The first of two stamps that is there. -/
def coalesce {α : Type} (stamp : Option α) (value : α) : Option α := stamp.or (some value)

/-- A later cut-off moves the mark forward, never back. -/
def withdraw (cutoffs : Entries String Cutoff) (principal : String) (now : ℤ) :
    Entries String Cutoff :=
  let excluded := { revokedBefore := now, expiresAt := now + maxAccessTokenLifetime }
  cutoffs.insert principal (match cutoffs.lookup principal with
    | none => excluded
    | some held =>
      { revokedBefore := max held.revokedBefore excluded.revokedBefore
        expiresAt := max held.expiresAt excluded.expiresAt })

namespace Tables

/-- The later of the marks on a token's client and, if it is known, its grant. -/
def revokedBefore (tables : Tables) (client : String) (grant : Option String) : Option ℤ :=
  let ofClient := (tables.clientCutoffs.lookup client).map (·.revokedBefore)
  let ofGrant := (grant.bind tables.grantCutoffs.lookup).map (·.revokedBefore)
  match ofClient, ofGrant with
  | some c, some g => some (max c g)
  | some c, none => some c
  | none, g => g

/-- The mark of a grant counts for every token that names it. -/
theorem le_revokedBefore {tables : Tables} (client : String) {grant : String} {cutoff : Cutoff}
    (h : tables.grantCutoffs.lookup grant = some cutoff) :
    ∃ mark, tables.revokedBefore client (some grant) = some mark ∧ cutoff.revokedBefore ≤ mark := by
  cases hcli : tables.clientCutoffs.lookup client with
  | none => exact ⟨cutoff.revokedBefore, by simp [revokedBefore, hcli, h], le_rfl⟩
  | some held =>
    exact ⟨max held.revokedBefore cutoff.revokedBefore, by simp [revokedBefore, hcli, h],
      le_max_right _ _⟩

/-! ### Grants -/

/-- Inserts a grant, which no writer has revoked yet; a conflict writes nothing. -/
def createGrant (tables : Tables) (grant : Grant) : Tables :=
  if tables.grants.contains grant.id then tables
  else
    { tables with
      grants := tables.grants.insert grant.id
        { grant with revokedAt := none, revocationReason := none } }

/-- The first credential taken from a grant that is neither revoked nor expired. -/
def claimGrant (tables : Tables) (id : String) (now : ℤ) : Tables :=
  { tables with
    grants := tables.grants.updateWhere
      (fun k grant => k = id ∧ grant.revokedAt = none ∧ ¬grant.expiresAt.any (· ≤ now))
      (fun grant => { grant with claimedAt := coalesce grant.claimedAt now }) }

/-- Delete grants. -/
def deleteGrants (tables : Tables) (ids : Finset String) : Tables :=
  { tables with grants := tables.grants.filter fun e => e.1 ∉ ids }

/-- A live grant is there. -/
def live (tables : Tables) (id : String) : Bool :=
  (tables.grants.lookup id).any (·.revokedAt = none)

/-- Stamps every refresh token of a grant. -/
def revokeRefreshTokensOf (tables : Tables) (grant : String) (now : ℤ) : Tables :=
  { tables with
    refreshTokens := tables.refreshTokens.updateWhere
      (fun _ token => token.grant = grant)
      (fun token => { token with revokedAt := coalesce token.revokedAt now }) }

/-- Marks the access tokens of a grant as withdrawn. -/
def withdrawGrant (tables : Tables) (grant : String) (now : ℤ) : Tables :=
  { tables with grantCutoffs := withdraw tables.grantCutoffs grant now }

/-- Marks the access tokens of a client as withdrawn. -/
def withdrawClient (tables : Tables) (client : String) (now : ℤ) : Tables :=
  { tables with clientCutoffs := withdraw tables.clientCutoffs client now }

/-- Stamps a grant as revoked, unless it already is. -/
def stampRevoked (tables : Tables) (grant : String) (reason : RevocationReason) (now : ℤ) :
    Tables :=
  { tables with
    grants := tables.grants.updateWhere (fun k _ => k = grant)
      (fun grant => { grant with
        revokedAt := coalesce grant.revokedAt now
        revocationReason := coalesce grant.revocationReason reason }) }

/-- Revokes a live grant with everything drawn on it, in one transaction. -/
def revokeGrant (tables : Tables) (grant : String) (reason : RevocationReason)
    (named : Finset String) (now : ℤ) : Tables :=
  if tables.live grant then
    let revoked := ((tables.revokeRefreshTokensOf grant now).withdrawGrant grant now).stampRevoked
      grant reason now
    { revoked with denylist := revoked.denylist ∪ named }
  else tables

/-- Changes what a live grant authorizes, and withdraws what was drawn on it before. -/
def amend (tables : Tables) (grant : Grant) (now : ℤ) : Tables :=
  if tables.live grant.id then
    let withdrawn := (tables.revokeRefreshTokensOf grant.id now).withdrawGrant grant.id now
    { withdrawn with
      grants := withdrawn.grants.updateWhere (fun k _ => k = grant.id)
        (fun held => { held with
          scopes := grant.scopes
          authorizationDetails := grant.authorizationDetails
          resources := grant.resources
          session := grant.session
          authorityRevision := grant.authorityRevision }) }
  else tables

/-- Freezes the root of a task to what was approved for it. -/
def freezeRoot (tables : Tables) (id : String) (scopes resources : Finset String)
    (details : List Json) (expiresAt : ℤ) : Tables :=
  { tables with
    grants := tables.grants.updateWhere (fun k _ => k = id)
      (fun grant => { grant with
        scopes, resources
        authorizationDetails := details
        expiresAt := some expiresAt }) }

/-- Binds a grant to a task; a grant that is under one stays there. -/
def bindTask (tables : Tables) (id : String) (expiresAt : ℤ) : Tables :=
  if tables.taskExpiries.contains id then tables
  else { tables with taskExpiries := tables.taskExpiries.insert id expiresAt }

/-- Moves the grants of a session to the session that continues it. -/
def rotateSession (tables : Tables) (user old new : String) : Tables :=
  { tables with
    grants := tables.grants.updateWhere
      (fun _ grant => grant.user = some user ∧ grant.session = some old)
      (fun grant => { grant with session := some new }) }

/-! ### Authorization codes -/

/-- Spends a code that is unspent and unexpired. -/
def spendCode (tables : Tables) (digest : String) (now : ℤ) : Tables :=
  { tables with
    codes := tables.codes.updateWhere
      (fun k code => k = digest ∧ code.consumedAt = none ∧ now < code.expiresAt)
      (fun code => { code with consumedAt := some now }) }

/-- The code is spendable. -/
def spendable (tables : Tables) (digest : String) (now : ℤ) : Option AuthorizationCode :=
  (tables.codes.lookup digest).filter fun code => code.consumedAt = none ∧ now < code.expiresAt

/-- The grant of a code that was already spent. -/
def replayedGrant (tables : Tables) (digest : String) : Option String :=
  ((tables.codes.lookup digest).filter fun code => code.consumedAt.isSome).map (·.grant)

/-! ### Refresh tokens -/

/-- The trigger before a refresh token is written: it ends no later than the task of its grant. -/
def boundTaskRefresh (tables : Tables) (token : RefreshToken) : RefreshToken :=
  match tables.taskExpiries.lookup token.grant with
  | none => token
  | some expiresAt =>
    let absolute := min token.absoluteExpiresAt expiresAt
    { token with
      absoluteExpiresAt := absolute
      idleExpiresAt := some (min (token.idleExpiresAt.getD expiresAt) absolute) }

/-- Inserts a refresh token; its digest is new. -/
def issueRefreshToken (tables : Tables) (digest : String) (token : RefreshToken) : Tables :=
  if tables.refreshTokens.contains digest then tables
  else
    { tables with
      refreshTokens := tables.refreshTokens.insert digest (tables.boundTaskRefresh token) }

/-- A presented refresh token is good: not revoked, inside both lifetimes, and not superseded for
longer than the grace. -/
def presentable (token : RefreshToken) (now grace : ℤ) : Bool :=
  token.revokedAt = none ∧ now < token.absoluteExpiresAt ∧
    ¬token.idleExpiresAt.any (· ≤ now) ∧ ¬token.supersededAt.any (· ≤ now - grace)

/-- A refresh token once it was used; the trigger leaves a superseded one alone. -/
def used (tables : Tables) (nextIdle : Option ℤ) (token : RefreshToken) : RefreshToken :=
  let pushed := { token with idleExpiresAt := nextIdle.map (min · token.absoluteExpiresAt) }
  if token.supersededAt.isSome then pushed else tables.boundTaskRefresh pushed

/-- Records the use of a good refresh token. -/
def redeemRefreshToken (tables : Tables) (digest : String) (now grace : ℤ)
    (nextIdle : Option ℤ) : Tables :=
  { tables with
    refreshTokens := tables.refreshTokens.updateWhere
      (fun k token => k = digest ∧ presentable token now grace) (tables.used nextIdle) }

/-- Issues a replacement and stamps the token it replaces. -/
def supersede (tables : Tables) (superseded digest : String) (replacement : RefreshToken)
    (now : ℤ) : Tables :=
  if tables.refreshTokens.contains digest then tables
  else
    { tables with
      refreshTokens :=
        (tables.refreshTokens.insert digest (tables.boundTaskRefresh replacement)).updateWhere
          (fun k _ => k = superseded)
          (fun token => { token with supersededAt := coalesce token.supersededAt now }) }

/-- Revokes one refresh token of a client, and withdraws the access tokens of its grant. -/
def revokeRefreshToken (tables : Tables) (digest client : String) (now : ℤ) : Tables :=
  match tables.refreshTokens.lookup digest with
  | none => tables
  | some token =>
    if token.client = client then
      { tables with
        refreshTokens := tables.refreshTokens.updateWhere (fun k _ => k = digest)
          (fun token => { token with revokedAt := coalesce token.revokedAt now })
        grantCutoffs := withdraw tables.grantCutoffs token.grant now }
    else tables

/-- The grants of a session that hold an unrevoked refresh token. -/
def sessionGrants (tables : Tables) (session : String) : List String :=
  (tables.refreshTokens.filter fun e => e.2.revokedAt = none ∧
    (tables.grants.lookup e.2.grant).any (·.session = some session)).map (·.2.grant)

/-- Revokes the refresh tokens of a session, and withdraws the access tokens of their grants. -/
def revokeForSession (tables : Tables) (session : String) (now : ℤ) : Tables :=
  { tables with
    refreshTokens := tables.refreshTokens.updateWhere
      (fun _ token => token.revokedAt = none ∧
        (tables.grants.lookup token.grant).any (·.session = some session))
      (fun token => { token with revokedAt := some now })
    grantCutoffs := (tables.sessionGrants session).foldl (fun cutoffs grant =>
      withdraw cutoffs grant now) tables.grantCutoffs }

/-! ### What a statement leaves alone -/

section Frame

variable (tables : Tables) (id digest client : String) (token : RefreshToken) (now : ℤ)

theorem grantCutoffs_createGrant (grant : Grant) :
    (tables.createGrant grant).grantCutoffs = tables.grantCutoffs := by
  unfold createGrant
  split_ifs <;> rfl

@[simp] theorem grants_issueRefreshToken :
    (tables.issueRefreshToken digest token).grants = tables.grants := by
  unfold issueRefreshToken
  split_ifs <;> rfl

theorem grantCutoffs_issueRefreshToken :
    (tables.issueRefreshToken digest token).grantCutoffs = tables.grantCutoffs := by
  unfold issueRefreshToken
  split_ifs <;> rfl

@[simp] theorem grants_bindTask : (tables.bindTask id now).grants = tables.grants := by
  unfold bindTask
  split_ifs <;> rfl

theorem grantCutoffs_bindTask : (tables.bindTask id now).grantCutoffs = tables.grantCutoffs := by
  unfold bindTask
  split_ifs <;> rfl

@[simp] theorem grants_supersede :
    (tables.supersede id digest token now).grants = tables.grants := by
  unfold supersede
  split_ifs <;> rfl

theorem grantCutoffs_supersede :
    (tables.supersede id digest token now).grantCutoffs = tables.grantCutoffs := by
  unfold supersede
  split_ifs <;> rfl

theorem codes_issueRefreshToken : (tables.issueRefreshToken digest token).codes = tables.codes := by
  unfold issueRefreshToken
  split_ifs <;> rfl

theorem codes_supersede : (tables.supersede id digest token now).codes = tables.codes := by
  unfold supersede
  split_ifs <;> rfl

@[simp] theorem grants_revokeRefreshToken :
    (tables.revokeRefreshToken digest client now).grants = tables.grants := by
  unfold revokeRefreshToken
  split
  · rfl
  · split_ifs <;> rfl

end Frame

/-! ### Retention -/

/-- Deletes codes a day after they expired. -/
def purgeCodes (tables : Tables) (digests : Finset String) (now : ℤ) : Tables :=
  { tables with
    codes := tables.codes.filter fun e => ¬(e.1 ∈ digests ∧
      (tables.codes.lookup e.1).any (·.expiresAt ≤ now - seconds 86400)) }

/-- Deletes refresh tokens past their absolute deadline. -/
def purgeRefreshTokens (tables : Tables) (digests : Finset String) (now : ℤ) : Tables :=
  { tables with
    refreshTokens := tables.refreshTokens.filter fun e => ¬(e.1 ∈ digests ∧
      (tables.refreshTokens.lookup e.1).any (·.absoluteExpiresAt ≤ now)) }

/-- Deletes cut-offs that have expired. -/
def purgeCutoffs (tables : Tables) (clients grants : Finset String) (now : ℤ) : Tables :=
  let expired (cutoffs : Entries String Cutoff) (k : String) : Bool :=
    (cutoffs.lookup k).any (·.expiresAt ≤ now)
  { tables with
    clientCutoffs := tables.clientCutoffs.filter fun e =>
      ¬(e.1 ∈ clients ∧ expired tables.clientCutoffs e.1)
    grantCutoffs := tables.grantCutoffs.filter fun e =>
      ¬(e.1 ∈ grants ∧ expired tables.grantCutoffs e.1) }

end Tables

end AsteriusIdp.Store
