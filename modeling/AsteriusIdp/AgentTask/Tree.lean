import AsteriusIdp.Lib.Forest
import AsteriusIdp.Issuance.Authority
import AsteriusIdp.Store.History

/-!
# The tree of an approved task

A task is approved for a root grant.  Every grant delegated from the root, at any depth, is bound
to the task: those that exist when it is approved, and each new one as it is inserted.  Revoking a
bound grant stamps that grant alone and queues a withdrawal; cleanup passes then stamp the grants
below it, so many at a time, in the order of their identifiers.

Each function here is one transaction, with the triggers it sets off.

* `Tree.insertGrant`, `Tree.approve`, `Tree.signAccess`: how the tree grows.
* `Tree.revokeCore`, `Tree.cleanupWithdrawals`: how it is withdrawn.
* `Tree.grantActive`, `Tree.tokenActive`: what a status check reports.
* `trees`: the interleavings of these transactions.
-/

namespace AsteriusIdp.AgentTask

open Fallible Transition
open Issuance (Task lineage readWriteGrant)

/-- A queued withdrawal, stored under the grant that was revoked. -/
structure Withdrawal where
  task : String
  root : String
  withdrawnAt : ℤ
  reason : RevocationReason
  /-- The last grant that cleanup looked at. -/
  cursor : Option String
  completed : Bool
  deriving DecidableEq

/-- Why a transaction was rolled back. -/
inductive TreeError where
  | conflict
  | notFound
  | invalid
  /-- The trigger on a new grant found no root close enough. -/
  | lineage
  deriving DecidableEq

/-- The tables of a tenant, with those of its tasks. -/
structure Tree where
  tables : Store.Tables
  /-- `agent_tasks`. -/
  tasks : Entries String Task
  /-- `agent_task_grants`: the task of a grant. -/
  bindings : Entries String String
  /-- `agent_task_clients`: the clients that may only act under a task. -/
  taskClients : Finset String
  /-- `agent_task_tokens`: the grant and the expiry of a task token. -/
  taskTokens : Entries String (String × ℤ)
  /-- `agent_task_withdrawals`. -/
  withdrawals : Entries String Withdrawal
  /-- The last approval revision. -/
  revision : ℤ

/-- What a decision reads beside the tables of grants and tasks. -/
structure Principals where
  clients : String → Option Client
  principalsActive : Task → List Grant → Bool
  currentPolicy : Grant → TokenClaims → Option ℤ

namespace Tree

variable (tree : Tree)

/-- The row of a grant. -/
def grant (id : String) : Option Grant := tree.tables.grants.lookup id

/-- The parents, as a forest. -/
def up (id : String) : Option (Option String) := (tree.grant id).map (·.parent)

/-- The task a grant is bound to. -/
def taskOf (id : String) : Option Task := (tree.bindings.lookup id).bind tree.tasks.lookup

/-- What issuance reads of these tables. -/
def store (principals : Principals) : Issuance.Store where
  grants := tree.grant
  clients := principals.clients
  denylist := tree.tables.denylist
  tasks := tree.taskOf
  taskClients := tree.taskClients
  taskTokens := tree.taskTokens.lookup
  principalsActive := principals.principalsActive
  currentPolicy := principals.currentPolicy

/-- Whether a bounded walk up from a grant meets an ancestor. -/
def descends (id ancestor : String) : Bool := (lineage tree.grant 10 id).any (·.id = ancestor)

/-! ### How the tree grows -/

/-- Binds a grant to a task, unless it is bound. -/
def bind (id task : String) : Tree :=
  if tree.bindings.contains id then tree
  else
    { tree with
      bindings := tree.bindings.insert id task
      tables := match tree.tasks.lookup task with
        | some row => tree.tables.bindTask id row.expiresAt
        | none => tree.tables }

/-- Inserts a grant.  A trigger before it wants a root above the grant, fewer than ten grants
away, and one after it binds the grant to the task of its parent. -/
def insertGrant (grant : Grant) : Except TreeError Tree := do
  refuseIf (tree.tables.grants.contains grant.id) .conflict
  match grant.parent with
  | none => pure { tree with tables := tree.tables.createGrant grant }
  | some parent => do
    refuseIf (Forest.climb tree.up 9 parent = none) .lineage
    let inserted := { tree with tables := tree.tables.createGrant grant }
    pure (match tree.bindings.lookup parent with
      | some task => inserted.bind grant.id task
      | none => inserted)

/-- Inserts a grant that is not stored yet. -/
def withGrant (grant : Grant) : Except TreeError Tree :=
  if (tree.grant grant.id).isSome then .ok tree else tree.insertGrant grant

/-- What an owner approves. -/
structure Approval where
  owner : String
  /-- The root as it was read before. -/
  root : Grant
  permissions : Permissions
  label : String
  expiry : ℤ
  now : ℤ

/-- The longest a task lives. -/
def maxTaskLifetime : ℤ := seconds 3600

/-- What is checked of an approval before anything is locked. -/
def checkApproval (parseUrl : UrlParser) (approval : Approval) : Except TaskError Unit := do
  let ⟨owner, root, permissions, label, expiry, now⟩ := approval
  permissions.validate parseUrl
  refuseIf (root.user ≠ some owner ∨ root.parent.isSome ∨ label = "" ∨ 256 < label.utf8ByteSize ∨
    (label.toList.any fun c => c.toNat < 32 || (127 ≤ c.toNat && c.toNat < 160)) ∨ expiry ≤ now ∨
    now + maxTaskLifetime < expiry ∨ root.expiresAt.any (· < expiry) ∨
    ¬permissions.scopes ⊆ root.scopes ∨ ¬permissions.resources ⊆ root.resources) .invalid
  let rootCeiling : Permissions :=
    { scopes := root.scopes, resources := root.resources
      authorizationDetails := root.authorizationDetails, maxDelegationDepth := 8 }
  rootCeiling.permits
    { root with
      scopes := permissions.scopes
      resources := permissions.resources
      authorizationDetails := permissions.authorizationDetails }

/-- The root still is what the approval was checked against. -/
def checkRoot (approval : Approval) (current : Grant) : Except TreeError Unit :=
  refuseIf (current.user ≠ some approval.owner ∨ current.revokedAt.isSome ∨
    current.expiresAt.any (· < approval.expiry) ∨ current.client ≠ approval.root.client ∨
    current.scopes ≠ approval.root.scopes ∨ current.resources ≠ approval.root.resources ∨
    current.authorizationDetails ≠ approval.root.authorizationDetails) .invalid

/-- The grants below a root, as far as the statement that binds them goes. -/
def descendants (root : String) : List String :=
  (tree.tables.grants.map (·.1)).filter fun id => tree.descends id root

/-- Records the task and binds its root and everything below it. -/
def activate (approval : Approval) (taskId : String) : Tree :=
  let root := approval.root.id
  let permissions := approval.permissions
  let task : Task :=
    { id := taskId, rootGrantId := root, approvalRevision := tree.revision + 1
      expiresAt := approval.expiry, revokedAt := none, permissions }
  let recorded := { tree with
    tables := tree.tables.freezeRoot root permissions.scopes permissions.resources
      permissions.authorizationDetails approval.expiry
    tasks := tree.tasks.insert taskId task
    taskClients := insert approval.root.client tree.taskClients
    revision := tree.revision + 1 }
  (tree.descendants root).foldl (fun bound id => bound.bind id taskId) (recorded.bind root taskId)

/-- Approves a task for a root that is a grant of its own.  `held` says that the owner and the
client could be locked as active, and `taskId` is new. -/
def approve (parseUrl : UrlParser) (held : Bool) (taskId : String) (approval : Approval)
    (clock : ℤ) : Except TreeError Tree := do
  (checkApproval parseUrl approval).mapError fun _ => .invalid
  refuseIf (held = false) .invalid
  refuseIf (approval.expiry ≤ clock ∨ clock + maxTaskLifetime < approval.expiry) .invalid
  let current ← okOr (tree.grant approval.root.id) .invalid
  checkRoot approval current
  refuseIf (tree.tasks.contains taskId ∨ (∃ e ∈ tree.tasks, e.2.rootGrantId = approval.root.id) ∨
    tree.bindings.contains approval.root.id) .conflict
  pure (tree.activate approval taskId)

/-- Signs an access token.  Under a task the transaction also stores the grant if it is new,
claims it and records the token. -/
def signAccess (principals : Principals) (grant : Grant) (claims : TokenClaims) (clock : ℤ) :
    Except TreeError (TokenClaims × Tree) := do
  let (signed, _) ← (Issuance.signAccess (tree.store principals) grant claims clock).mapError
    fun _ => .invalid
  match tree.taskOf (grant.parent.getD grant.id) with
  | none => pure (signed, tree)
  | some _ => do
    let stored ← tree.withGrant grant
    refuseIf (¬stored.bindings.contains grant.id ∨ stored.taskTokens.contains claims.jti) .conflict
    pure (signed, { stored with
      tables := stored.tables.claimGrant grant.id clock
      taskTokens := stored.taskTokens.insert claims.jti (grant.id, seconds claims.exp) })

/-! ### How it is withdrawn -/

/-- Queues a withdrawal, unless there is one for the grant. -/
def enqueue (ancestor : String) (withdrawal : Withdrawal) : Tree :=
  if tree.withdrawals.contains ancestor then tree
  else { tree with withdrawals := tree.withdrawals.insert ancestor withdrawal }

/-- Ends a task, unless it has ended. -/
def endTask (task : String) (now : ℤ) : Tree :=
  { tree with
    tasks := tree.tasks.updateWhere (fun k _ => k = task)
      (fun row => { row with revokedAt := Store.coalesce row.revokedAt now }) }

/-- What comes before the revocation of a grant: a grant under a task is queued, and its root ends
the task with it.  (The trigger that queues an ended task would queue the same withdrawal.) -/
def beginWithdrawal (ancestor : String) (reason : RevocationReason) (now : ℤ) :
    Except TreeError Tree := do
  let path ← okOr (Forest.climb tree.up 10 ancestor) .notFound
  let root ← okOr path.getLast? .notFound
  match tree.bindings.lookup ancestor with
  | none => pure tree
  | some taskId => do
    let task ← okOr (tree.tasks.lookup taskId) .notFound
    refuseIf (task.rootGrantId ≠ root) .invalid
    let ended := if root = ancestor then tree.endTask taskId now else tree
    pure (ended.enqueue ancestor
      { task := taskId, root, withdrawnAt := now, reason, cursor := none, completed := false })

/-- Revokes a live grant with everything drawn on it. -/
def revokeCore (id : String) (reason : RevocationReason) (named : Finset String) (now : ℤ) :
    Except TreeError Tree := do
  let begun ← tree.beginWithdrawal id reason now
  refuseIf (¬begun.tables.live id) .notFound
  pure { begun with tables := begun.tables.revokeGrant id reason named now }

/-- The first of some withdrawals, by time and then by grant. -/
def earliest : List (String × Withdrawal) → Option (String × Withdrawal)
  | [] => none
  | e :: es => match earliest es with
    | none => some e
    | some e' =>
      if e.2.withdrawnAt < e'.2.withdrawnAt ∨ (e.2.withdrawnAt = e'.2.withdrawnAt ∧ e.1 ≤ e'.1)
      then some e else some e'

/-- How many grants one pass looks at. -/
def batch : ℕ := 512

/-- The withdrawals that are not complete. -/
def pending : List (String × Withdrawal) := tree.withdrawals.filter fun e => !e.2.completed

/-- The grants of the task behind the cursor. -/
def remaining (withdrawal : Withdrawal) : List String :=
  (tree.bindings.filter fun e =>
    e.2 = withdrawal.task ∧ ¬withdrawal.cursor.any (e.1 ≤ ·)).map (·.1)

/-- The grants a pass looks at. -/
def candidates (withdrawal : Withdrawal) : List String := (tree.remaining withdrawal).take batch

/-- Stamps grants and their refresh tokens, and withdraws their access tokens. -/
def withdrawAll (affected : List String) (withdrawal : Withdrawal) (clock : ℤ) : Store.Tables :=
  let tokens := tree.taskTokens.filter fun e => e.2.1 ∈ affected ∧ clock < e.2.2
  { tree.tables with
    grants := tree.tables.grants.updateWhere (fun k row => k ∈ affected ∧ row.revokedAt = none)
      (fun row => { row with
        revokedAt := some withdrawal.withdrawnAt
        revocationReason := some withdrawal.reason })
    refreshTokens := tree.tables.refreshTokens.updateWhere
      (fun _ token => token.grant ∈ affected ∧ token.revokedAt = none)
      (fun token => { token with revokedAt := some withdrawal.withdrawnAt })
    denylist := tree.tables.denylist ∪ (tokens.map (·.1)).toFinset
    grantCutoffs := affected.foldl (fun cutoffs id =>
      Store.withdraw cutoffs id withdrawal.withdrawnAt) tree.tables.grantCutoffs }

/-- One pass over a withdrawal: those of its candidates that are below the revoked grant are
withdrawn, and the cursor moves on. -/
def sweep (ancestor : String) (withdrawal : Withdrawal) (clock : ℤ) : Tree :=
  let candidates := tree.candidates withdrawal
  let affected := candidates.filter fun id => tree.descends id ancestor
  { tree with
    tables := tree.withdrawAll affected withdrawal clock
    withdrawals := tree.withdrawals.updateWhere (fun k _ => k = ancestor)
      (fun row => { row with
        cursor := candidates.getLast?.or row.cursor
        completed := candidates.length < batch }) }

/-- A pass over the withdrawal that is first in the queue.  Nothing happens while the root cannot
be locked or the task is missing. -/
def cleanupWithdrawals (clock : ℤ) : Tree :=
  match earliest tree.pending with
  | none => tree
  | some (ancestor, withdrawal) =>
    if (tree.grant withdrawal.root).isSome ∧ tree.tasks.contains withdrawal.task then
      tree.sweep ancestor withdrawal clock
    else tree

/-! ### What a status check reports -/

/-- The task authority of a stored grant. -/
def grantActive (principals : Principals) (id : String) (clock : ℤ) : Bool :=
  match tree.grant id with
  | none => false
  | some row => match tree.taskOf id with
    | none => row.client ∉ tree.taskClients
    | some task =>
      Issuance.activeGrant (tree.store principals) id task.id task.approvalRevision clock

/-- The task authority of an access token. -/
def tokenActive (principals : Principals) (token : TokenClaims) (clock : ℤ) : Bool :=
  match token.task with
  | none => token.clientId ∉ tree.taskClients
  | some (task, revision) =>
    (Issuance.activeLink (tree.store principals) token.jti task revision clock).any fun id =>
      (tree.grant id).any (·.client = token.clientId)

end Tree

/-! ### Interleavings -/

/-- Statements of other transactions that neither insert nor delete a grant, nor revoke one: among
them those that write refresh tokens. -/
def Quiet : Store.Op → Bool
  | .claimGrant .. | .amend .. | .rotateSession .. | .revokeRefreshTokensOf .. | .withdrawGrant ..
  | .issueRefreshToken .. | .redeemRefreshToken .. | .supersede .. | .revokeRefreshToken ..
  | .revokeForSession .. | .withdrawClient .. | .deny .. | .purgeDenylist .. | .purgeCutoffs ..
  | .purgeCodes .. | .purgeRefreshTokens .. => true
  | _ => false

/-- A transaction on the tree. -/
inductive Event where
  /-- A grant is inserted outside the signing transaction. -/
  | create (grant : Grant)
  | sign (principals : Principals) (grant : Grant) (claims : TokenClaims) (clock : ℤ)
  | approve (held : Bool) (taskId : String) (approval : Tree.Approval) (clock : ℤ)
  | revoke (id : String) (reason : RevocationReason) (named : Finset String) (now : ℤ)
  /-- A grant is stamped as revoked by a writer that queues nothing: the answer to a replayed
  code, and the end of a user or of a native session. -/
  | stamp (id : String) (reason : RevocationReason) (now : ℤ)
  | cleanup (clock : ℤ)
  | statement (op : Store.Op) (now : ℤ)

/-- The tables, and for which grant each access token was signed. -/
structure Run where
  tree : Tree
  issued : List (String × TokenClaims)

/-- The state a transaction leads to; one that is rolled back changes nothing. -/
def Run.next (parseUrl : UrlParser) (s : Run) : Event → Run
  | .create grant => match s.tree.insertGrant grant with
    | .ok tree => { s with tree }
    | .error _ => s
  | .sign principals grant claims clock =>
    match s.tree.signAccess principals grant claims clock with
    | .ok (signed, tree) => { tree, issued := (grant.id, signed) :: s.issued }
    | .error _ => s
  | .approve held taskId approval clock =>
    match s.tree.approve parseUrl held taskId approval clock with
    | .ok tree => { s with tree }
    | .error _ => s
  | .revoke id reason named now => match s.tree.revokeCore id reason named now with
    | .ok tree => { s with tree }
    | .error _ => s
  | .stamp id reason now =>
    { s with tree := { s.tree with tables := s.tree.tables.stampRevoked id reason now } }
  | .cleanup clock => { s with tree := s.tree.cleanupWithdrawals clock }
  | .statement op now => { s with tree := { s.tree with tables := op.apply s.tree.tables now } }

/-- The builder puts no task into a token, and a root that was read before has the parent it still
has. -/
def Event.Allowed (s : Run) : Event → Prop
  | .sign _ _ claims _ => claims.task = none
  | .approve _ _ approval _ => ∀ row, s.tree.grant approval.root.id = some row →
      row.parent = approval.root.parent
  | .statement op _ => Quiet op
  | _ => True

/-- The interleavings of transactions on the tree. -/
def trees (parseUrl : UrlParser) : System Run Event where
  step s e s' := e.Allowed s ∧ s' = s.next parseUrl e

/-- A tenant without grants. -/
def Run.init : Run where
  tree :=
    { tables := (Store.State.init 0).tables, tasks := [], bindings := [], taskClients := ∅
      taskTokens := [], withdrawals := [], revision := 0 }
  issued := []

/-! ### A task with one delegate -/

/-- The grant of the owner. -/
def rootGrant : Grant := { readWriteGrant with user := some "owner" }

/-- A grant of another client, delegated from a grant. -/
def delegatedGrant (id parent : String) : Grant :=
  { Grant.new id "agent" "rev" 0 with
    parent := some parent, parentRevision := some "rev", scopes := {"read"}
    resources := {"https://api.example/"}, claimedAt := some 0 }

/-- The owner approves reading. -/
def readTask : Tree.Approval :=
  { owner := "owner", root := rootGrant
    permissions :=
      { scopes := {"read"}, resources := {"https://api.example/"}, authorizationDetails := []
        maxDelegationDepth := 8 }
    label := "task", expiry := seconds 60, now := 0 }

/-- Both grants are there when the task is approved. -/
def approvedRun : List Event :=
  [.create rootGrant, .create (delegatedGrant "child" "grant"), .approve true "task" readTask 0]

/-- An access token of the delegate. -/
def delegateToken : TokenClaims :=
  { exp := 300, iat := 0, aud := {"https://api.example/"}, sub := "app", clientId := "agent"
    jti := "jti", jkt := none, scope := {"read"}, authorizationDetails := [], act := none
    mayAct := none, grantId := some "child", task := none }

/-- Principals that are all active. -/
def noPrincipals : Principals := ⟨fun _ => none, fun _ _ => true, fun _ _ => none⟩

end AsteriusIdp.AgentTask
