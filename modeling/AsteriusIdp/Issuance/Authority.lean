import AsteriusIdp.AgentTask.Permissions
import AsteriusIdp.Domain.Client
import AsteriusIdp.Issuance.AccessToken

/-!
# The authority behind a signature

Before an access token is signed, the grant it names and every grant above it are locked and
checked: none revoked or expired, each claimed, each derived from the current revision of the one
above.  Under an approved task, the grant has to stay under the ceiling of the task and of every
ancestor, and the token carries the task.

* `signAccess_spec`: what signing leaves of the claims it was given.
* `signAccess_resources`: under a task, the grant stays inside the resources of its parent.
-/

namespace AsteriusIdp.Issuance

open Fallible AgentTask

/-- An approved task. -/
structure Task where
  id : String
  rootGrantId : String
  approvalRevision : ℤ
  expiresAt : ℤ
  revokedAt : Option ℤ
  permissions : Permissions

/-- The tables that issuance reads. -/
structure Store where
  grants : String → Option Grant
  clients : String → Option Client
  /-- Revoked `jti`s. -/
  denylist : Finset String
  /-- The task a grant is bound to. -/
  tasks : String → Option Task
  /-- The clients that may only act under a task. -/
  taskClients : Finset String
  /-- The grant and the expiry of a task token, by `jti`. -/
  taskTokens : String → Option (String × ℤ)
  /-- The owner, the agent and the clients of a lineage are active and belong together. -/
  principalsActive : Task → List Grant → Bool
  /-- What the current registrations allow, as a cap on the lifetime of a task token. -/
  currentPolicy : Grant → TokenClaims → Option ℤ

/-- The grants from a given one to its root, at most `depth` of them. -/
def lineage (grants : String → Option Grant) : ℕ → String → List Grant
  | 0, _ => []
  | depth + 1, id => match grants id with
    | none => []
    | some grant => grant :: match grant.parent with
      | none => []
      | some parent => lineage grants depth parent

/-- The grant is bound to this revision of the task, and the task and the grant's whole lineage are
active. -/
def activeGrant (store : Store) (id task : String) (revision clock : ℤ) : Bool :=
  match store.tasks id with
  | none => false
  | some row =>
    let rows := lineage store.grants 11 id
    0 < revision ∧ row.id = task ∧ row.approvalRevision = revision ∧ clock < row.expiresAt ∧
    row.revokedAt = none ∧ rows.length ≤ 10 ∧
    (∃ grant ∈ rows, grant.id = row.rootGrantId) ∧ (∃ grant ∈ rows, grant.id = id) ∧
    (∀ grant ∈ rows, grant.revokedAt = none ∧ ¬grant.expiresAt.any (· ≤ clock)) ∧
    store.principalsActive row rows

/-- The grant of a task token, if the token, its task and its whole lineage are active. -/
def activeLink (store : Store) (jti task : String) (revision clock : ℤ) : Option String :=
  match store.taskTokens jti with
  | none => none
  | some (id, expiresAt) =>
    if jti ≠ "" ∧ jti.utf8ByteSize ≤ 256 ∧ clock < expiresAt ∧
    activeGrant store id task revision clock then some id
    else none

/-- The grants from a given one to its root; there are at most `depth`. -/
def authorityRows (grants : String → Option Grant) : ℕ → String → Option (List Grant)
  -- A cycle runs out of depth as well, so that it is refused like a chain that is too long.
  | 0, _ => none
  | depth + 1, id => match grants id with
    | none => none
    | some grant => match grant.parent with
      | none => some [grant]
      | some parent => (authorityRows grants depth parent).map (grant :: ·)

/-- The earliest expiry of some grants. -/
def earliestExpiry (rows : List Grant) : Option ℤ :=
  (rows.filterMap (·.expiresAt)).min?

/-- Each grant was derived from the current revision of the next. -/
def derived : List Grant → Bool
  | child :: parent :: rest =>
    child.parentRevision = some parent.authorityRevision && derived (parent :: rest)
  | _ => true

/-- Locks a grant and its ancestors for issuance; their earliest expiry bounds the token. -/
def lockIssuanceAuthority (grants : String → Option Grant) (grant : Grant) (clock : ℤ) :
    Except TaskError (Option ℤ) := do
  let rows ← okOr (authorityRows grants 10 grant.id) .invalid
  refuseIf (¬rows.head?.any fun exact => exact.client = grant.client ∧ exact.user = grant.user ∧
    exact.subject = grant.subject ∧ exact.parent = grant.parent ∧
    exact.authorityRevision = grant.authorityRevision) .invalid
  refuseIf (¬derived rows) .invalid
  refuseIf (∃ row ∈ rows, row.revokedAt.isSome ∨ row.claimedAt.isNone ∨
    row.expiresAt.any (· ≤ clock)) .invalid
  pure (earliestExpiry rows)

/-- The token ends no later than the authority behind it. -/
def capAuthorityExpiry (claims : TokenClaims) (deadline : Option ℤ) (clock : ℤ) :
    Except TaskError TokenClaims := do
  refuseIf (deadline.any (· ≤ clock)) .invalid
  pure (match deadline with
    | some deadline => { claims with exp := min claims.exp (unixTimestamp deadline) }
    | none => claims)

/-- Signs for a grant outside every task. -/
def signUnbound (store : Store) (grant : Grant) (claims : TokenClaims) (clock : ℤ) :
    Except TaskError TokenClaims := do
  let deadline ← lockIssuanceAuthority store.grants grant clock
  refuseIf (claims.clientId ∈ store.taskClients) .invalid
  refuseIf (grant.task.isSome ∨ (store.tasks grant.id).isSome) .invalid
  capAuthorityExpiry claims deadline clock

/-- An ancestor read as a ceiling. -/
def ceilingOf (ancestor : Grant) (maxDelegationDepth : ℕ) : Permissions :=
  { scopes := ancestor.scopes, resources := ancestor.resources,
    authorizationDetails := ancestor.authorizationDetails, maxDelegationDepth }

/-- The limits of an agent in the lineage hold for the grant. -/
def withinLimits (grant : Grant) (limits : AgentLimits) : Bool :=
  limits.scopes.all (grant.scopes ⊆ ·) ∧ limits.audiences.all (grant.resources ⊆ ·) ∧
    max grant.actorChain.length 1 ≤ limits.maxDelegationDepth

/-- What an ancestor has to satisfy for a grant below it to be signed for. -/
def checkAncestor (store : Store) (grant : Grant) (maxDelegationDepth : ℕ) (ancestor : Grant) :
    Except TaskError Unit := do
  refuseIf (ancestor.revokedAt.isSome) .invalid
  (ceilingOf ancestor maxDelegationDepth).permits grant
  let client ← okOr (store.clients ancestor.client) .invalid
  refuseIf (¬client.agent.all (withinLimits grant)) .invalid

/-- The shortest lifetime the agents of a lineage allow. -/
def lineageCap (store : Store) (rows : List Grant) : ℤ :=
  (rows.filterMap fun row => (store.clients row.client).bind fun client =>
    client.agent.bind (·.accessTokenTtlCap)).foldl min (seconds 300)

/-- Whether the tables hold a grant. -/
def Store.holds (store : Store) (grant : Grant) : Bool := (store.grants grant.id).isSome

/-- Store a grant. -/
def Store.insert (store : Store) (grant : Grant) : Store :=
  { store with grants := Function.update store.grants grant.id (some grant) }

theorem Store.insert_self (store : Store) (grant : Grant) :
    (store.insert grant).grants grant.id = some grant := Function.update_self ..

/-- Takes the authority to mint from a grant; the first time stamps it. -/
def Store.claim (store : Store) (id : String) (now : ℤ) : Except TaskError Store := do
  let row ← okOr (store.grants id) .invalid
  refuseIf (row.revokedAt.isSome ∨ row.expiresAt.any (· ≤ now)) .invalid
  pure { store with
    grants := Function.update store.grants id
      (some { row with claimedAt := row.claimedAt.or (some now) }) }

/-- Records which grant a task token was minted from. -/
def Store.recordTaskToken (store : Store) (jti grant : String) (expiresAt : ℤ) : Store :=
  { store with taskTokens := Function.update store.taskTokens jti (some (grant, expiresAt)) }

/-- The task is active and covers the grant. -/
def checkTask (task : Task) (grant : Grant) (claims : TokenClaims) (clock : ℤ) :
    Except TaskError Unit := do
  refuseIf (task.expiresAt ≤ clock ∨ task.revokedAt.isSome) .invalid
  task.permissions.permits grant
  refuseIf (¬grant.task.any fun binding => binding.taskId = task.id ∧
    binding.rootGrantId = task.rootGrantId ∧
    binding.approvalRevision = task.approvalRevision) .invalid
  refuseIf (claims.authorizationDetails ≠ grant.authorizationDetails) .invalid

/-- The lineage of the grant reaches the root of the task, and every ancestor covers the grant. -/
def checkLineage (store : Store) (task : Task) (grant : Grant) (ancestors : List Grant) :
    Except TaskError Unit := do
  refuseIf (¬∃ row ∈ ancestors, row.id = task.rootGrantId) .invalid
  ancestors.forM (checkAncestor store grant task.permissions.maxDelegationDepth)

/-- The token ends before its task, its ancestors and the caps of their agents. -/
def checkLifetime (store : Store) (task : Task) (grant : Grant) (claims : TokenClaims)
    (ancestors : List Grant) (clock : ℤ) : Except TaskError Unit := do
  let deadline := (ancestors.filterMap (·.expiresAt)).foldl min task.expiresAt
  let policyCap ← okOr (store.currentPolicy grant claims) .invalid
  refuseIf (seconds claims.exp ≤ clock ∨ deadline < seconds claims.exp ∨
    claims.exp - claims.iat > 300 ∨
    seconds (claims.exp - claims.iat) > min policyCap (lineageCap store ancestors) ∨
    claims.clientId ≠ grant.client) .invalid

/-- Signs for a grant under a task, and stores the grant if it is new. -/
def signFenced (store : Store) (task : Task) (grant : Grant) (claims : TokenClaims) (clock : ℤ) :
    Except TaskError (TokenClaims × Store) := do
  checkTask task grant claims clock
  let start := if store.holds grant then grant.id else grant.parent.getD grant.id
  let ancestors := lineage store.grants 10 start
  checkLineage store task grant ancestors
  checkLifetime store task grant claims ancestors clock
  let stored := if store.holds grant then store else store.insert grant
  let claimed ← stored.claim grant.id clock
  let recorded := claimed.recordTaskToken claims.jti grant.id (seconds claims.exp)
  let authority ← lockIssuanceAuthority recorded.grants grant clock
  let signed ← capAuthorityExpiry
    { claims with task := some (task.id, task.approvalRevision) } authority clock
  pure (signed, recorded)

/-- Sign, within the task if there is one. -/
def signAccess (store : Store) (grant : Grant) (claims : TokenClaims) (clock : ℤ) :
    Except TaskError (TokenClaims × Store) :=
  match store.tasks (grant.parent.getD grant.id) with
  | none => do
    let signed ← signUnbound store grant claims clock
    pure (signed, store)
  | some task => signFenced store task grant claims clock

/-- The lifetime of a task token: no longer than the task, its ancestors and their agents allow. -/
def taskLifetime (store : Store) (grant : Grant) (tenantLifetime : ℤ) (tenantCap : Option ℤ)
    (expiry now lifetime : ℤ) : ℤ :=
  let rows := lineage store.grants 10 (grant.parent.getD grant.id)
  let capped := min (min (min lifetime tenantLifetime) (seconds 300)) (expiry - now)
  let agents := (grant.client :: rows.map (·.client)).filterMap fun client =>
    (store.clients client).bind fun client => client.agent.bind (·.accessTokenTtlCap)
  (agents ++ tenantCap.toList).foldl min capped

/-- The details of a grant under a task: those requested, or those of its parent. -/
def taskDetails (store : Store) (grant : Grant) (requestedDetails : Option (List Json)) :
    List Json :=
  match requestedDetails with
  | some details => details
  | none =>
    if grant.authorizationDetails = [] then
      ((store.grants (grant.parent.getD grant.id)).map (·.authorizationDetails)).getD []
    else grant.authorizationDetails

/-- Binds a grant to a task and lowers its lifetime. -/
def prepareTask (parseUrl : UrlParser) (store : Store) (task : Task) (grant : Grant)
    (tenantLifetime : ℤ) (tenantCap : Option ℤ) (requestedDetails : Option (List Json))
    (now lifetime : ℤ) : Except TaskError (Grant × ℤ) := do
  refuseIf (task.expiresAt ≤ now ∨ task.revokedAt.isSome) .invalid
  task.permissions.validate parseUrl
  let bound := { grant with
    task := some
      { taskId := task.id, rootGrantId := task.rootGrantId,
        approvalRevision := task.approvalRevision, expiresAt := task.expiresAt }
    authorizationDetails := taskDetails store grant requestedDetails }
  task.permissions.permits bound
  let rows := lineage store.grants 10 (grant.parent.getD grant.id)
  let expiry := (rows.filterMap (·.expiresAt)).foldl min task.expiresAt
  let capped := taskLifetime store grant tenantLifetime tenantCap expiry now lifetime
  refuseIf (capped ≤ 0) .invalid
  pure ({ bound with expiresAt := some (min (bound.expiresAt.getD expiry) expiry) }, capped)

/-- Prepares a grant for issuance: under a task if its parent is, unchanged otherwise. -/
def prepare (parseUrl : UrlParser) (store : Store) (grant : Grant) (tenantLifetime : ℤ)
    (tenantCap : Option ℤ) (requestedDetails : Option (List Json)) (now lifetime : ℤ) :
    Except TaskError (Grant × ℤ) :=
  match store.tasks (grant.parent.getD grant.id) with
  | none => do
    refuseIf (grant.client ∈ store.taskClients ∨ requestedDetails.isSome) .invalid
    pure (grant, lifetime)
  | some task =>
    prepareTask parseUrl store task grant tenantLifetime tenantCap requestedDetails now lifetime

/-- Stores a new grant, unless the signature will. -/
def createForIssuance (store : Store) (grant : Grant) : Except TaskError Store := do
  refuseIf (store.holds grant) .invalid
  pure (if (store.tasks (grant.parent.getD grant.id)).isSome then store else store.insert grant)

/-! ### What a token request is told -/

/-- Why a token request stopped. -/
inductive Failure where
  /-- The client can act on it. -/
  | client (code description : String)
  /-- A proof of possession is missing. -/
  | dpop
  /-- The deployment is at fault. -/
  | server
  deriving DecidableEq

/-- What a request for another audience is told. -/
def targetRefused : String :=
  "the resource parameter does not name a resource this token may be issued for"

/-- Runs a computation with its errors reported as a failure of the request. -/
def orFail {ε α : Type} (failure : Failure) : Except ε α → Except Failure α
  | .ok value => .ok value
  | .error _ => .error failure

@[simp]
theorem orFail_ok {ε α : Type} {failure : Failure} {x : Except ε α} {value : α} :
    orFail failure x = .ok value ↔ x = .ok value := by
  cases x <;> simp [orFail]

/-- What every failure of the task authority is reported as. -/
def taskRefused : Failure :=
  .client "invalid_grant" "task authority is not active or does not cover this request"

/-! ### What signing leaves -/

variable {claims signed : TokenClaims} {clock : ℤ} {store after : Store} {grant : Grant}

theorem capAuthorityExpiry_spec {deadline : Option ℤ}
    (h : capAuthorityExpiry claims deadline clock = .ok signed) :
    ∃ exp ≤ claims.exp, signed = { claims with exp } := by
  simp only [capAuthorityExpiry, bind_ok, pure_ok] at h
  obtain ⟨-, -, rfl⟩ := h
  cases deadline with
  | none => exact ⟨claims.exp, le_rfl, rfl⟩
  | some => exact ⟨_, min_le_left _ _, rfl⟩

/-- Signing keeps the scopes, the audience, the grant and the actors of a token, and never extends
it. -/
theorem signAccess_spec (h : signAccess store grant claims clock = .ok (signed, after)) :
    signed.scope = claims.scope ∧ signed.aud = claims.aud ∧ signed.exp ≤ claims.exp ∧
    signed.grantId = claims.grantId ∧ signed.act = claims.act := by
  unfold signAccess at h
  split at h
  · simp only [signUnbound, bind_ok, pure_ok, Prod.mk.injEq] at h
    obtain ⟨_, ⟨_, -, -, -, -, -, hcap⟩, rfl, -⟩ := h
    obtain ⟨exp, hexp, rfl⟩ := capAuthorityExpiry_spec hcap
    exact ⟨rfl, rfl, hexp, rfl, rfl⟩
  · simp only [signFenced, bind_ok, pure_ok] at h
    obtain ⟨_, -, _, -, _, -, _, -, _, -, _, hcap, rfl, -⟩ := h
    obtain ⟨_, hexp, rfl⟩ := capAuthorityExpiry_spec hcap
    exact ⟨rfl, rfl, hexp, rfl, rfl⟩

/-- A grant that is signed for under a task stays under the grant it was delegated from. -/
theorem signAccess_resources {parent : Grant} {task : Task} {parentId : String}
    (h : signAccess store grant claims clock = .ok (signed, after))
    (hup : grant.parent = some parentId) (htk : store.tasks parentId = some task)
    (hnew : store.holds grant = false) (hrow : store.grants parentId = some parent) :
    grant.resources ⊆ parent.resources := by
  have hmem : parent ∈ lineage store.grants 10 parentId := by
    simp [lineage, hrow]
  simp only [signAccess, hup, Option.getD_some, htk, signFenced, hnew, checkLineage, bind_ok] at h
  obtain ⟨_, -, _, ⟨-, -, hanc⟩, -⟩ := h
  have hchk := forM_ok.1 hanc parent hmem
  simp only [checkAncestor, bind_ok] at hchk
  obtain ⟨-, -, _, hpm, -⟩ := hchk
  exact (Permissions.permits_subset hpm).2

theorem head?_authorityRows {grants : String → Option Grant} {depth : ℕ} {id : String}
    {rows : List Grant} (h : authorityRows grants depth id = some rows) :
    rows.head? = grants id := by
  cases depth with
  | zero => cases h
  | succ =>
    rw [authorityRows] at h
    cases hrow : grants id with
    | none => simp [hrow] at h
    | some grant =>
      rw [hrow] at h
      cases hup : grant.parent with
      | none =>
        simp only [hup, Option.some.injEq] at h
        rw [← h, List.head?_cons]
      | some =>
        simp only [hup, Option.map_eq_some_iff] at h
        obtain ⟨_, -, rfl⟩ := h
        rw [List.head?_cons]

/-- What issuance locks: the rows from the grant up, none of them revoked. -/
theorem lockIssuanceAuthority_spec {grants : String → Option Grant} {deadline : Option ℤ}
    (h : lockIssuanceAuthority grants grant clock = .ok deadline) :
    ∃ rows row, authorityRows grants 10 grant.id = some rows ∧ grants grant.id = some row ∧
    row.parent = grant.parent ∧ row ∈ rows ∧ ∀ row ∈ rows, row.revokedAt = none := by
  simp only [lockIssuanceAuthority, bind_ok, okOr_ok, refuseIf_ok, not_not,
    Option.any_eq_true, decide_eq_true_eq] at h
  obtain ⟨rows, hrs, -, ⟨row, hhd, hexa⟩, -, -, -, hlv, -⟩ := h
  refine ⟨rows, row, hrs, (head?_authorityRows hrs).symm.trans hhd, hexa.2.2.2.1,
    List.mem_of_mem_head? hhd, fun row hmem => ?_⟩
  by_contra hrev
  exact hlv ⟨row, hmem, .inl (Option.isSome_iff_ne_none.2 hrev)⟩

/-- No token is signed for a grant that is revoked. -/
theorem signAccess_live {row : Grant}
    (h : signAccess store grant claims clock = .ok (signed, after))
    (hrow : store.grants grant.id = some row) : row.revokedAt = none := by
  unfold signAccess at h
  split at h
  · simp only [signUnbound, bind_ok] at h
    obtain ⟨_, ⟨_, hlk, -⟩, -⟩ := h
    obtain ⟨_, _, -, hrow', -, hmem, hlv⟩ := lockIssuanceAuthority_spec hlk
    cases hrow.symm.trans hrow'
    exact hlv row hmem
  · have hhl : store.holds grant = true := by rw [Store.holds, hrow]; rfl
    simp only [signFenced, hhl, if_true, Store.claim, hrow, bind_ok, okOr_ok,
      refuseIf_ok, Option.some.injEq] at h
    obtain ⟨_, -, _, -, _, -, _, ⟨_, rfl, -, hlv, -⟩, -⟩ := h
    by_contra hrev
    exact hlv (.inl (Option.isSome_iff_ne_none.2 hrev))

/-- The grant of an active task token is bound to a task. -/
theorem tasks_of_activeLink {jti task id : String} {revision : ℤ}
    (h : activeLink store jti task revision clock = some id) : (store.tasks id).isSome := by
  unfold activeLink at h
  split at h
  · cases h
  · simp only [Option.ite_none_right_eq_some, Option.some.injEq] at h
    obtain ⟨⟨-, -, -, hact⟩, rfl⟩ := h
    unfold activeGrant at hact
    split at hact
    · cases hact
    · rename_i hrow
      rw [hrow]
      rfl

theorem foldl_min_le (l : List ℤ) (a : ℤ) : l.foldl min a ≤ a := by
  induction l generalizing a with
  | nil => exact le_rfl
  | cons b l ih => exact (ih (min a b)).trans (min_le_left a b)

theorem taskLifetime_le (store : Store) (grant : Grant) (tenantLifetime : ℤ)
    (tenantCap : Option ℤ) (expiry now lifetime : ℤ) :
    taskLifetime store grant tenantLifetime tenantCap expiry now lifetime ≤ lifetime := by
  refine (foldl_min_le _ _).trans ?_
  exact (min_le_left _ _).trans ((min_le_left _ _).trans (min_le_left _ _))

/-- Preparing a grant under a task never widens it nor its lifetime. -/
theorem prepare_spec {parseUrl : UrlParser} {bound : Grant} {tenantLifetime : ℤ}
    {tenantCap : Option ℤ} {requestedDetails : Option (List Json)} {now lifetime capped : ℤ}
    (h : prepare parseUrl store grant tenantLifetime tenantCap requestedDetails now lifetime =
      .ok (bound, capped)) :
    bound.id = grant.id ∧ bound.parent = grant.parent ∧ bound.scopes = grant.scopes ∧
    bound.resources = grant.resources ∧ bound.actorChain = grant.actorChain ∧
    capped ≤ lifetime := by
  unfold prepare at h
  split at h
  · simp only [bind_ok, pure_ok, Prod.mk.injEq] at h
    obtain ⟨-, -, rfl, rfl⟩ := h
    exact ⟨rfl, rfl, rfl, rfl, rfl, le_rfl⟩
  · simp only [prepareTask, bind_ok, pure_ok, Prod.mk.injEq] at h
    obtain ⟨-, -, -, -, -, -, -, -, rfl, rfl⟩ := h
    exact ⟨rfl, rfl, rfl, rfl, rfl, taskLifetime_le ..⟩

/-! ### A grant at one API -/

/-- A reading of URLs in which every one is an `https` one. -/
def exampleUrl (raw : String) : Option Url :=
  some { scheme := "https", username := "", password := none, host := some raw, port := none,
         path := "/", query := none, fragment := none }

/-- A grant for reading and writing at one API. -/
def readWriteGrant : Grant :=
  { Grant.new "grant" "app" "rev" 0 with
    scopes := {"read", "write"}, resources := {"https://api.example/"}, claimedAt := some 0 }

/-- The tables with that grant only. -/
def exampleStore : Store :=
  { grants := fun id => if id = "grant" then some readWriteGrant else none
    clients := fun _ => none
    denylist := ∅
    tasks := fun _ => none
    taskClients := ∅
    taskTokens := fun _ => none
    principalsActive := fun _ _ => true
    currentPolicy := fun _ _ => none }

end AsteriusIdp.Issuance
