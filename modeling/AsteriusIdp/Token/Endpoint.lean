import AsteriusIdp.Issuance.Mint
import AsteriusIdp.Store.History

/-!
# Requests at the token endpoint

Many requests redeem codes and refresh tokens at the same time.  A request is a sequence of
statements, each atomic; between two of them any other request may run, and anything else may
happen to the tables of the tenant.  What a request keeps from one statement to the next is its
`Phase`.

Spending a code, finding out that it was spent, revoking its grant and revoking the refresh tokens
of the grant are four statements.  The refresh token of a redeemed code is inserted by the last
statement of its request.

Checks that read nothing another request writes can only refuse.  A request may be refused before
any of its statements, so those checks, and failures of the storage, are the label `refuse`.
-/

namespace AsteriusIdp.Token

open Fallible Issuance Store Transition

/-! ### Refresh policy -/

/-- What a refresh gives back. -/
inductive Rotation where
  /-- The same token, unchanged. -/
  | none
  /-- A new token; the old one keeps working for the grace. -/
  | migration (grace : ℤ)
  deriving DecidableEq

/-- What a client has set. -/
structure RefreshPolicy where
  absoluteLifetime : ℤ
  idleLifetime : Option ℤ
  bindToDpopKey : Bool
  rotation : Rotation
  deriving DecidableEq

namespace RefreshPolicy

/-- Refresh tokens are rotated. -/
def rotates (policy : RefreshPolicy) : Bool :=
  match policy.rotation with
  | .none => false
  | .migration _ => true

/-- How long a superseded token stays acceptable. -/
def grace (policy : RefreshPolicy) : ℤ :=
  match policy.rotation with
  | .none => 0
  | .migration grace => grace

/-- The idle deadline that a use at some instant buys. -/
def nextIdle (policy : RefreshPolicy) (now : ℤ) : Option ℤ := policy.idleLifetime.map (now + ·)

end RefreshPolicy

/-- A request that redeems a code. -/
structure CodeRequest where
  /-- The digest of the code. -/
  code : String
  policy : RefreshPolicy
  /-- What a refresh token of this client is bound to. -/
  binding : RefreshBinding
  minting : Minting

/-- A request that redeems a refresh token. -/
structure RefreshRequest where
  /-- The digest of the token. -/
  digest : String
  policy : RefreshPolicy
  /-- The `scope` parameter. -/
  scope : Option String
  /-- The client authenticates with nothing but its requests. -/
  isPublic : Bool
  /-- The thumbprint of the key the request proves. -/
  proofKey : Option String
  /-- The thumbprint of the certificate the request presents. -/
  certificate : Option String
  minting : Minting

/-- What a failed redemption of a code is told. -/
def codeRefused : Failure := .client "invalid_grant" "the authorization code cannot be redeemed"

/-- What a failed refresh is told. -/
def refreshRefused : Failure := .client "invalid_grant" "the refresh token cannot be redeemed"

/-- The request holds what the refresh token is bound to. -/
def RefreshRequest.checkBinding (request : RefreshRequest) (record : RefreshToken) :
    Except Failure Unit :=
  match record.binding with
  | .dpop jkt =>
    if ¬request.isPublic ∧ ¬request.policy.bindToDpopKey then pure ()
    else refuseIf (request.proofKey ≠ some jkt) refreshRefused
  | .certificate thumbprint => do
    refuseIf request.isPublic refreshRefused
    refuseIf (request.certificate ≠ some thumbprint) refreshRefused
  | .bearer => refuseIf request.isPublic refreshRefused

/-- The refresh token that a grant with `offline_access` earns. -/
def CodeRequest.newRefreshToken (request : CodeRequest) (grant : Grant) : RefreshToken :=
  let now := request.minting.now
  let absoluteExpiresAt := now + request.policy.absoluteLifetime
  { grant := grant.id
    client := grant.client
    scopes := grant.scopes
    binding := request.binding
    issuedAt := now
    absoluteExpiresAt
    idleExpiresAt := (request.policy.nextIdle now).map (min · absoluteExpiresAt)
    revokedAt := none
    supersededAt := none }

/-- The token that replaces a refresh token: it inherits everything but the scopes, which are those
of this refresh. -/
def RefreshRequest.replacement (request : RefreshRequest) (record : RefreshToken)
    (scopes : Finset String) : RefreshToken :=
  let now := request.minting.now
  { grant := record.grant
    client := record.client
    scopes
    binding := record.binding
    issuedAt := now
    absoluteExpiresAt := record.absoluteExpiresAt
    idleExpiresAt := (request.policy.nextIdle now).map (min · record.absoluteExpiresAt)
    revokedAt := none
    supersededAt := none }

/-! ### Statements -/

/-- A refresh that a token was signed for. -/
structure Use where
  request : RefreshRequest
  /-- The refresh token as it was redeemed. -/
  record : RefreshToken
  /-- The scopes of this refresh. -/
  effective : Finset String
  token : TokenClaims

/-- How far a request got. -/
inductive Phase where
  | idle
  | presented (request : CodeRequest)
  /-- There was nothing to spend. -/
  | unspent (request : CodeRequest)
  /-- The code was spent before, and its grant is to be revoked. -/
  | replay (now : ℤ) (grant : String)
  /-- The grant is revoked, and its refresh tokens are to be. -/
  | stamped (now : ℤ) (grant : String)
  | replayed (grant : String)
  | redeemed (request : CodeRequest) (grant : String)
  | found (request : CodeRequest) (grant : Grant)
  | claimed (request : CodeRequest) (grant : Grant) (targeting : Targeting)
  | signed (request : CodeRequest) (grant : Grant) (token : TokenClaims)
  | issued (request : CodeRequest) (token : TokenClaims)
  | refreshing (request : RefreshRequest)
  | accepted (request : RefreshRequest) (record : RefreshToken)
  | authorized (request : RefreshRequest) (record : RefreshToken) (grant : Grant)
      (effective : Finset String)
  | reclaimed (request : RefreshRequest) (record : RefreshToken) (grant : Grant)
      (effective : Finset String)
  | minted (use : Use)
  /-- Answered with a token and with this refresh token. -/
  | refreshed (use : Use) (returned : String)
  /-- Answered with a failure, after the request spent this code. -/
  | refused (spent : Option String) (failure : Failure)

namespace Phase

/-- The code the request spent. -/
def spent : Phase → Option String
  | redeemed request _ | found request _ | claimed request _ _ | signed request _ _
  | issued request _ => some request.code
  | refused spent _ => spent
  | _ => none

/-- The request is answered. -/
def answered : Phase → Bool
  | replayed _ | issued _ _ | refreshed _ _ | refused _ _ => true
  | _ => false

end Phase

/-- What a statement meets besides the tables that requests write. -/
structure Input where
  /-- The other tables, for this statement and for the reads before it. -/
  store : Issuance.Store
  /-- The clock of the database. -/
  clock : ℤ
  /-- The digest of a refresh token generated now. -/
  freshDigest : String

namespace Input

/-- What signing reads. -/
def on (input : Input) (tables : Tables) : Issuance.Store :=
  { input.store with grants := tables.grants.lookup }

/-- With the store as it is. -/
def minting (input : Input) (minting : Minting) : Minting :=
  { minting with store := input.store, clock := input.clock }

/-- Claims a grant; the stamp of a grant under a task is left to the signature. -/
def claim (input : Input) (tables : Tables) (id : String) (now : ℤ) : Except Failure Tables := do
  let _ ← claimForIssuance (input.on tables) id now
  pure (if (input.store.tasks id).isSome then tables else tables.claimGrant id now)

/-- What a signature for a grant writes. -/
def signing (input : Input) (tables : Tables) (grant : Grant) : Tables :=
  if (input.store.tasks (grant.parent.getD grant.id)).isSome then
    tables.claimGrant grant.id input.clock
  else tables

end Input

/-- Spends the code. -/
def spend (tables : Tables) (request : CodeRequest) : Tables × Phase :=
  match tables.spendable request.code request.minting.now with
  | some row => (tables.spendCode request.code request.minting.now, .redeemed request row.grant)
  | none => (tables, .unspent request)

/-- Finds out whether a code that could not be spent was spent before. -/
def inspect (tables : Tables) (request : CodeRequest) : Phase :=
  match tables.replayedGrant request.code with
  | some grant => .replay request.minting.now grant
  | none => .refused none codeRefused

/-- Reads the grant of the code. -/
def findGrant (tables : Tables) (request : CodeRequest) (id : String) : Phase :=
  match tables.grants.lookup id with
  | some grant =>
    if grant.mayIssue request.minting.now then .found request grant
    else .refused (some request.code) codeRefused
  | none => .refused (some request.code) codeRefused

section

variable (parseUrl : UrlParser)

/-- Decides the audience and claims the grant. -/
def claimForCode (input : Input) (tables : Tables) (request : CodeRequest) (grant : Grant) :
    Except Failure (Tables × Targeting) := do
  let targeting ← request.minting.target parseUrl grant
  request.minting.permitted (roleGrant grant targeting)
  let claimed ← input.claim tables grant.id request.minting.now
  pure (claimed, targeting)

/-- Redeems the refresh token. -/
def redeemRefresh (tables : Tables) (request : RefreshRequest) : Tables × Phase :=
  let now := request.minting.now
  let nextIdle := request.policy.nextIdle now
  match (tables.refreshTokens.lookup request.digest).filter
    (Tables.presentable · now request.policy.grace) with
  | some token =>
    (tables.redeemRefreshToken request.digest now request.policy.grace nextIdle,
      .accepted request (tables.used nextIdle token))
  | none => (tables, .refused none refreshRefused)

/-- Checks the record, reads its grant and narrows the scopes to those requested. -/
def authorize (tables : Tables) (request : RefreshRequest) (record : RefreshToken) :
    Except Failure (Grant × Finset String) := do
  refuseIf (record.client ≠ request.minting.client.id) refreshRefused
  request.checkBinding record
  let grant ← okOr (tables.grants.lookup record.grant) refreshRefused
  refuseIf (grant.status request.minting.now ≠ .active) refreshRefused
  let effective ← orFail (.client "invalid_scope" "the requested scope exceeds the granted scope")
    (requestedScopes request.scope record.scopes)
  pure (grant, effective)

/-- Replaces the refresh token if the policy rotates. -/
def rotate (input : Input) (tables : Tables) (use : Use) : Tables × Phase :=
  if use.request.policy.rotates then
    (tables.supersede use.request.digest input.freshDigest
        (use.request.replacement use.record use.effective) use.request.minting.now,
      .refreshed use input.freshDigest)
  else (tables, .refreshed use use.request.digest)

/-- The next statement of a request. -/
def next (input : Input) (tables : Tables) : Phase → Tables × Phase
  | .presented request => spend tables request
  | .unspent request => (tables, inspect tables request)
  | .replay now grant => (tables.stampRevoked grant .codeReplayed now, .stamped now grant)
  | .stamped now grant => (tables.revokeRefreshTokensOf grant now, .replayed grant)
  | .redeemed request id => (tables, findGrant tables request id)
  | .found request grant =>
    match claimForCode parseUrl input tables request grant with
    | .ok (claimed, targeting) => (claimed, .claimed request grant targeting)
    | .error failure => (tables, .refused (some request.code) failure)
  | .claimed request grant targeting =>
    match (input.minting request.minting).signCode parseUrl (input.on tables) grant targeting with
    | .ok (token, _) => (input.signing tables grant, .signed request grant token)
    | .error failure => (tables, .refused (some request.code) failure)
  | .signed request grant token =>
    (if "offline_access" ∈ grant.scopes then
      tables.issueRefreshToken input.freshDigest (request.newRefreshToken grant) else tables,
      .issued request token)
  | .refreshing request => redeemRefresh tables request
  | .accepted request record =>
    match authorize tables request record with
    | .ok (grant, effective) => (tables, .authorized request record grant effective)
    | .error failure => (tables, .refused none failure)
  | .authorized request record grant effective =>
    match input.claim tables grant.id request.minting.now with
    | .ok claimed => (claimed, .reclaimed request record grant effective)
    | .error failure => (tables, .refused none failure)
  | .reclaimed request record grant effective =>
    match (input.minting request.minting).signRefresh parseUrl (input.on tables)
        { grant with scopes := effective } with
    | .ok (token, _) =>
      (input.signing tables grant, .minted { request, record, effective, token })
    | .error failure => (tables, .refused none failure)
  | .minted use => rotate input tables use
  | phase => (tables, phase)

end

/-! ### Transitions -/

/-- What the next statement of a request can write and where it can leave the request. -/
inductive Moves (parseUrl : UrlParser) (input : Input) (tables : Tables) :
    Phase → Tables × Phase → Prop
  | stays {phase : Phase} : phase = .idle ∨ phase.answered →
    Moves parseUrl input tables phase (tables, phase)
  | refuses (phase : Phase) (failure : Failure) :
    Moves parseUrl input tables phase (tables, .refused phase.spent failure)
  | spends {request : CodeRequest} {row : AuthorizationCode} :
    tables.spendable request.code request.minting.now = some row →
    Moves parseUrl input tables (.presented request)
      (tables.spendCode request.code request.minting.now, .redeemed request row.grant)
  | misses (request : CodeRequest) :
    Moves parseUrl input tables (.presented request) (tables, .unspent request)
  | detects {request : CodeRequest} {grant : String} :
    tables.replayedGrant request.code = some grant →
    Moves parseUrl input tables (.unspent request) (tables, .replay request.minting.now grant)
  | stamps (now : ℤ) (grant : String) :
    Moves parseUrl input tables (.replay now grant)
      (tables.stampRevoked grant .codeReplayed now, .stamped now grant)
  | revokes (now : ℤ) (grant : String) :
    Moves parseUrl input tables (.stamped now grant)
      (tables.revokeRefreshTokensOf grant now, .replayed grant)
  | finds {request : CodeRequest} {id : String} {grant : Grant} :
    tables.grants.lookup id = some grant → grant.mayIssue request.minting.now →
    Moves parseUrl input tables (.redeemed request id) (tables, .found request grant)
  | claims {request : CodeRequest} {grant : Grant} {claimed : Tables} (targeting : Targeting) :
    input.claim tables grant.id request.minting.now = .ok claimed →
    Moves parseUrl input tables (.found request grant) (claimed, .claimed request grant targeting)
  | signs (request : CodeRequest) (grant : Grant) (targeting : Targeting) (token : TokenClaims) :
    Moves parseUrl input tables (.claimed request grant targeting)
      (input.signing tables grant, .signed request grant token)
  | issues (request : CodeRequest) (grant : Grant) (token : TokenClaims) :
    Moves parseUrl input tables (.signed request grant token)
      (if "offline_access" ∈ grant.scopes then
        tables.issueRefreshToken input.freshDigest (request.newRefreshToken grant) else tables,
        .issued request token)
  | accepts {request : RefreshRequest} {token : RefreshToken} :
    tables.refreshTokens.lookup request.digest = some token →
    Moves parseUrl input tables (.refreshing request)
      (tables.redeemRefreshToken request.digest request.minting.now request.policy.grace
          (request.policy.nextIdle request.minting.now),
        .accepted request (tables.used (request.policy.nextIdle request.minting.now) token))
  | authorizes {request : RefreshRequest} {record : RefreshToken} {grant : Grant}
      {effective : Finset String} :
    authorize tables request record = .ok (grant, effective) →
    Moves parseUrl input tables (.accepted request record)
      (tables, .authorized request record grant effective)
  | reclaims {request : RefreshRequest} (record : RefreshToken) {grant : Grant}
      (effective : Finset String) {claimed : Tables} :
    input.claim tables grant.id request.minting.now = .ok claimed →
    Moves parseUrl input tables (.authorized request record grant effective)
      (claimed, .reclaimed request record grant effective)
  | mints {request : RefreshRequest} (record : RefreshToken) {grant : Grant}
      {effective : Finset String} {token : TokenClaims} {after : Issuance.Store} :
    (input.minting request.minting).signRefresh parseUrl (input.on tables)
      { grant with scopes := effective } = .ok (token, after) →
    Moves parseUrl input tables (.reclaimed request record grant effective)
      (input.signing tables grant, .minted { request, record, effective, token })
  | supersedes {use : Use} : use.request.policy.rotates →
    Moves parseUrl input tables (.minted use)
      (tables.supersede use.request.digest input.freshDigest
          (use.request.replacement use.record use.effective) use.request.minting.now,
        .refreshed use input.freshDigest)
  | returns {use : Use} : use.request.policy.rotates = false →
    Moves parseUrl input tables (.minted use) (tables, .refreshed use use.request.digest)

theorem moves_next (parseUrl : UrlParser) (input : Input) (tables : Tables)
    (phase : Phase) : Moves parseUrl input tables phase (next parseUrl input tables phase) := by
  cases phase with
  | presented req =>
    simp only [next, spend]
    split
    next row hrow => exact .spends hrow
    next => exact .misses req
  | unspent =>
    simp only [next, inspect]
    split
    next grant hgr => exact .detects hgr
    next => exact .refuses ..
  | replay now grant => exact .stamps now grant
  | stamped now grant => exact .revokes now grant
  | redeemed =>
    simp only [next, findGrant]
    split
    next grant hgr =>
      split_ifs with his
      · exact .finds hgr his
      · exact .refuses ..
    next => exact .refuses ..
  | found =>
    simp only [next]
    split
    next claimed targeting hcl =>
      simp only [claimForCode, bind_ok, pure_ok] at hcl
      obtain ⟨_, -, _, -, _, hcl, rfl, -⟩ := hcl
      exact .claims targeting hcl
    next => exact .refuses ..
  | claimed =>
    simp only [next]
    split
    next => exact .signs ..
    next => exact .refuses ..
  | signed req grant token => exact .issues req grant token
  | refreshing =>
    simp only [next, redeemRefresh]
    split
    next token htok =>
      rw [Option.filter_eq_some_iff] at htok
      exact .accepts htok.1
    next => exact .refuses ..
  | accepted =>
    simp only [next]
    split
    next grant effective hau => exact .authorizes hau
    next => exact .refuses ..
  | authorized req record grant effective =>
    simp only [next]
    split
    next claimed hcl => exact .reclaims record effective hcl
    next => exact .refuses ..
  | reclaimed req record =>
    simp only [next]
    split
    next token after hsg => exact .mints record hsg
    next => exact .refuses ..
  | minted =>
    simp only [next, rotate]
    split_ifs with hrot
    · exact .supersedes hrot
    · exact .returns (by simpa using hrot)
  | idle => exact .stays (.inl rfl)
  | replayed | issued | refreshed | refused => exact .stays (.inr rfl)

/-! ### The endpoint -/

/-- The tables and the requests at some moment. -/
structure State where
  tables : Tables
  /-- The identifiers of grants that were ever used. -/
  ids : Finset String
  /-- The digests of codes that were ever used. -/
  codes : Finset String
  /-- The refresh tokens that were ever issued, as they were inserted. -/
  refreshTokens : String → Option RefreshToken
  requests : ℕ → Phase

/-- What can happen at the endpoint and around it. -/
inductive Label where
  | present (r : ℕ) (request : CodeRequest)
  | refresh (r : ℕ) (request : RefreshRequest)
  /-- The next statement of a request. -/
  | advance (r : ℕ) (input : Input)
  | refuse (r : ℕ) (failure : Failure)
  /-- A code is issued at the authorization endpoint. -/
  | issueCode (digest : String) (code : AuthorizationCode)
  /-- Something else happens to the tables. -/
  | other (now : ℤ) (op : Op)

namespace State

/-- The state with other tables; a refresh token is remembered as it was inserted. -/
def write (s : State) (tables : Tables) : State :=
  { s with
    tables
    refreshTokens := fun digest =>
      (s.refreshTokens digest).or (tables.refreshTokens.lookup digest) }

/-- The state with a request in another phase. -/
def answer (s : State) (r : ℕ) (phase : Phase) : State :=
  { s with requests := Function.update s.requests r phase }

/-- The endpoint of a tenant without any record. -/
def init : State :=
  { tables := (Store.State.init 0).tables
    ids := ∅
    codes := ∅
    refreshTokens := fun _ => none
    requests := fun _ => .idle }

end State

/-- What may happen outside the endpoint: grants stay, and new digests are new. -/
def Outside (s : State) (now : ℤ) : Op → Prop
  | .deleteGrants _ => False
  | .issueRefreshToken digest _ => s.refreshTokens digest = none
  | .supersede _ digest _ => s.refreshTokens digest = none
  | op => op.Allowed s.ids now

/-- The endpoint with everything around it. -/
def endpoint (parseUrl : UrlParser) : System State Label where
  step s l s' :=
    match l with
    | .present r request => s.requests r = .idle ∧ s' = s.answer r (.presented request)
    | .refresh r request => s.requests r = .idle ∧ s' = s.answer r (.refreshing request)
    | .advance r input => s.refreshTokens input.freshDigest = none ∧
        let result := next parseUrl input s.tables (s.requests r)
        s' = (s.write result.1).answer r result.2
    | .refuse r failure => s.requests r ≠ .idle ∧ (s.requests r).answered = false ∧
        s' = s.answer r (.refused (s.requests r).spent failure)
    | .issueCode digest code => digest ∉ s.codes ∧ code.consumedAt = none ∧
        s.tables.grants.contains code.grant ∧
        s' = { s with
          tables := { s.tables with codes := s.tables.codes.insert digest code }
          codes := insert digest s.codes }
    | .other now op => Outside s now op ∧
        s' = { s.write (op.apply s.tables now) with ids := s.ids ∪ op.newIds }

/-- What a step makes of a request that does not arrive and is not refused: it stays as it was, or
executes a statement. -/
theorem requests_step (P : Phase → Prop) (hP : (∀ req, ¬P (.presented req)) ∧
      (∀ req, ¬P (.refreshing req)) ∧ ∀ spent failure, ¬P (.refused spent failure))
    {parseUrl : UrlParser} {s s' : State} {l : Label} {r : ℕ}
    (hst : (endpoint parseUrl).step s l s') (h : P (s'.requests r)) :
    P (s.requests r) ∨ ∃ input result, s.refreshTokens input.freshDigest = none ∧
    Moves parseUrl input s.tables (s.requests r) result ∧ P result.2 ∧
    s'.tables = result.1 ∧ s'.refreshTokens = (s.write result.1).refreshTokens := by
  -- A step writes the phase of at most one request.
  have hans : ∀ (t : State) (r' : ℕ) (phase : Phase), P ((t.answer r' phase).requests r) →
      P (t.requests r) ∨ r' = r ∧ P phase := by
    intro _ r' _ h
    simp only [State.answer, Function.update_apply] at h
    split_ifs at h with hr
    · exact .inr ⟨hr.symm, h⟩
    · exact .inl h
  cases l with
  | present r' req =>
    obtain ⟨-, rfl⟩ := hst
    exact (hans s r' _ h).imp_right fun h => absurd h.2 (hP.1 req)
  | refresh r' req =>
    obtain ⟨-, rfl⟩ := hst
    exact (hans s r' _ h).imp_right fun h => absurd h.2 (hP.2.1 req)
  | refuse r' failure =>
    obtain ⟨-, -, rfl⟩ := hst
    exact (hans s r' _ h).imp_right fun h => absurd h.2 (hP.2.2 _ failure)
  | advance r' input =>
    obtain ⟨hfr, rfl⟩ := hst
    rcases hans _ r' _ h with hbef | ⟨rfl, hmv⟩
    · exact .inl hbef
    · exact .inr ⟨input, _, hfr, moves_next parseUrl input s.tables _, hmv, rfl, rfl⟩
  | issueCode =>
    obtain ⟨-, -, -, rfl⟩ := hst
    exact .inl h
  | other =>
    obtain ⟨-, rfl⟩ := hst
    exact .inl h

end AsteriusIdp.Token
