import AsteriusIdp.Claims.Name
import AsteriusIdp.Domain.ResourceServer
import AsteriusIdp.Lib.Transition
import AsteriusIdp.Time

/-!
# Temporary entitlements in the store

A temporary entitlement is a role at one client for one resource that a user may hold for minutes,
after an approver agreed.  Its owner configures it and says who is eligible; an eligible user
requests it; an approver decides; an approved request has one activation, which ends by revocation
or expiry.  Every edit of an entitlement or an eligibility gives the row a new revision.

Each operation is one transaction under the tenant's fence, so that `Tables` goes from one to the
next.  `resolve` reads the roles a grant carries at a moment.
-/

namespace AsteriusIdp.Entitlements

open Fallible

/-- Why a role name was refused. -/
inductive RoleNameError where
  | length (found : ℕ)
  | character (c : Char)
  | start
  deriving DecidableEq, Repr

/-- Why an operation is refused. -/
inductive DomainError where
  | notFound
  | invalid (field reason : String)
  /-- An invalid `role_name`, for the reason given. -/
  | roleName (reason : RoleNameError)
  | conflict (reason : String)
  deriving DecidableEq, Repr

/-- The name of an application role, as it appears in a token. -/
def RoleName.parse (raw : String) : Except RoleNameError String := do
  refuseIf (raw = "" ∨ 64 < raw.utf8ByteSize) (.length raw.utf8ByteSize)
  refuseSome (raw.toList.find? fun c =>
    !(('a' ≤ c && c ≤ 'z') || ('0' ≤ c && c ≤ '9') || c ∈ ['-', '_', '.', ':'])) .character
  refuseIf (¬raw.toList.head?.any Char.isAlphanum) .start
  pure raw

/-! ### Authentication contexts -/

/-- One rung: a name, and the methods that satisfy it. -/
structure AcrLevel where
  value : String
  methods : List AuthenticationMethod
  deriving DecidableEq

/-- A tenant's authentication contexts, weakest first. -/
structure AcrPolicy where
  levels : List AcrLevel
  amrInIdToken : Bool
  deriving DecidableEq

/-- All its methods were used. -/
def AcrLevel.isMetBy (level : AcrLevel) (used : List AuthenticationMethod) : Bool :=
  level.methods.all (used.contains ·)

namespace AcrPolicy

/-- The level of a name. -/
def level (policy : AcrPolicy) (value : String) : Option AcrLevel :=
  policy.levels.find? (·.value = value)

/-- There is such a level. -/
def canProduce (policy : AcrPolicy) (value : String) : Bool := (policy.level value).isSome

end AcrPolicy

/-- What was proved, when, and under which ladder. -/
structure AssuranceProof where
  provedAt : Option ℤ
  revision : Option String
  methods : List AuthenticationMethod
  deriving DecidableEq

/-! ### Rows -/

/-- What the owner has set. -/
structure EntitlementConfiguration where
  ownerUserId : String
  clientId : String
  resource : String
  roleName : String
  permissions : List String
  approverUserIds : List String
  requesterAcr : String
  approverAcr : String
  maxDurationSeconds : ℤ
  maxEligibilitySeconds : ℤ
  enabled : Bool
  deriving DecidableEq

/-- An entitlement.  A reference is dropped for good when what it names is deleted. -/
structure Entitlement where
  revision : String
  editorUserId : String
  createdAt : ℤ
  configuration : EntitlementConfiguration
  ownerReference : Option String
  clientReference : Option String
  roleReference : Option String
  resourceReference : Option String
  deriving DecidableEq

/-- Who may ask, and when. -/
structure Eligibility where
  entitlementId : String
  userId : String
  editorUserId : String
  revision : String
  notBefore : ℤ
  expiresAt : ℤ
  revokedAt : Option ℤ
  deriving DecidableEq

/-- Where a request stands. -/
inductive RequestStatus where
  | pending
  | approved
  | denied
  | cancelled
  | expired
  | invalidated
  deriving DecidableEq

/-- A request for the role. -/
structure EntitlementRequest where
  entitlementId : String
  eligibilityId : String
  eligibilityRevision : String
  policyRevision : String
  requesterUserId : String
  clientId : String
  resource : String
  roleName : String
  permissions : List String
  requesterAcr : String
  approverAcr : String
  durationSeconds : ℤ
  reason : String
  createdAt : ℤ
  deadline : ℤ
  status : RequestStatus
  decidedAt : Option ℤ
  decidedBy : Option String
  deriving DecidableEq

/-- The role for a while. -/
structure Activation where
  requestId : String
  entitlementId : String
  userId : String
  activatedAt : ℤ
  expiresAt : ℤ
  revokedAt : Option ℤ
  revocationReason : Option String
  expiryRecordedAt : Option ℤ
  deriving DecidableEq

/-- The rows of a tenant. -/
structure Tables where
  entitlements : Entries String Entitlement
  eligibilities : Entries String Eligibility
  requests : Entries String EntitlementRequest
  activations : Entries String Activation

/-- Who acts in a browser session. -/
structure SessionActor where
  user : String
  sessionDigest : String
  deriving DecidableEq

/-- The row a session has, with the proof stored for it. -/
structure SessionProof where
  authenticatedAt : Option ℤ
  revision : Option String
  methods : Option (List (Option AuthenticationMethod))

/-- What the other tables of the tenant say. -/
structure Catalogue where
  userActive : String → Bool
  /-- The client is active and no agent. -/
  clientOpen : String → Bool
  hasRole : String → String → Bool
  /-- The scopes of a resource server; `some none` restricts nothing. -/
  resourceScopes : String → Option (Option (Finset String))
  acr : AcrPolicy
  /-- The live session of an active user, at an instant. -/
  session : SessionActor → ℤ → Option SessionProof

/-! ### Permissions and assurance -/

/-- Protocol and privacy scopes are no API permissions. -/
def isResourcePermission (scope : String) : Bool :=
  scope ∉ ["openid", "profile", "email", "address", "phone", "offline_access",
    "grant_management_query", "grant_management_revoke"]

/-- The API permissions of a grant are exactly the approved ones. -/
def resourcePermissionsExact (approved : List String) (actual : Finset String) : Bool :=
  approved ≠ [] && approved.all isResourcePermission &&
    approved.toFinset = actual.filter (isResourcePermission ·)

/-- A reason of 1 to 1024 bytes. -/
def validateReason (reason : String) : Except DomainError Unit :=
  refuseIf (reason.toList.all Text.isWhitespace ∨ 1024 < reason.utf8ByteSize ∨
      reason.toList.any isControl)
    (.invalid "reason" "requires 1..1024 bytes without control characters")

section Ladder

variable (ladderRevision : AcrPolicy → String)

/-- The proof is fresh, made under today's ladder, and meets the level. -/
def assuranceCurrent (policy : AcrPolicy) (required : String) (proof : AssuranceProof) (now : ℤ) :
    Bool :=
  match proof.provedAt with
  | none => false
  | some provedAt =>
    !(proof.methods.any fun method => method = .federatedOidc || method = .existingSession) &&
      0 ≤ now - provedAt && now - provedAt ≤ seconds 120 &&
      proof.revision = some (ladderRevision policy) &&
      (policy.level required).any (·.isMetBy proof.methods)

/-- The session of the actor is live, and meets a level if one is required. -/
def session (catalogue : Catalogue) (actor : SessionActor) (required : Option String) (now : ℤ) :
    Except DomainError Unit := do
  let row ← okOr (catalogue.session actor now) .notFound
  match required with
  | none => pure ()
  | some required =>
    let provedAt ← okOr row.authenticatedAt
      (.invalid "authentication" "independent assurance proof is missing")
    let methods ← okOr row.methods
      (.invalid "authentication" "independent proof methods missing")
    let methods ← okOr (methods.mapM id)
      (.invalid "authentication" "unknown authentication evidence")
    refuseIf (¬assuranceCurrent ladderRevision catalogue.acr required
        ⟨some provedAt, row.revision, methods⟩ now)
      (.invalid "authentication" "fresh required assurance must be proved")

end Ladder

/-! ### Records -/

namespace Tables

variable (tables : Tables) (catalogue : Catalogue)

/-- The row, if it exists. -/
def entitlement (id : String) : Except DomainError Entitlement :=
  okOr (tables.entitlements.lookup id) .notFound

/-- The row, for its active owner. -/
def owner (user id : String) : Except DomainError Entitlement := do
  let e ← tables.entitlement id
  refuseIf (e.configuration.ownerUserId ≠ user ∨ ¬catalogue.userActive user) .notFound
  pure e

/-- What an entitlement is about is still there: its owner, its client and its resource, with the
permissions. -/
def inForce (e : Entitlement) : Bool :=
  e.configuration.enabled && e.ownerReference.any catalogue.userActive &&
    e.clientReference.any catalogue.clientOpen &&
    e.resourceReference.any fun resource => (catalogue.resourceScopes resource).any fun scopes =>
      scopes.all fun allowed => e.configuration.permissions.all (· ∈ allowed)

/-- The status of a request as it is read: a pending one may have lapsed. -/
def requestStatus (r : EntitlementRequest) (clock : ℤ) : RequestStatus :=
  if r.status ≠ .pending then r.status
  else if r.deadline ≤ clock then .expired
  else
    match tables.entitlements.lookup r.entitlementId,
      tables.eligibilities.lookup r.eligibilityId with
    | some e, some el =>
      if inForce catalogue e ∧ e.roleReference.isSome ∧ e.revision = r.policyRevision ∧
      el.entitlementId = r.entitlementId ∧ el.revision = r.eligibilityRevision ∧
      el.userId = r.requesterUserId ∧ el.revokedAt = none ∧ el.notBefore ≤ clock ∧
      clock < el.expiresAt ∧ catalogue.userActive r.requesterUserId then .pending
      else .invalidated
    | _, _ => .invalidated

/-- The row, with its status by now. -/
def request (id : String) (clock : ℤ) : Except DomainError EntitlementRequest := do
  let r ← okOr (tables.requests.lookup id) .notFound
  pure { r with status := tables.requestStatus catalogue r clock }

/-- The row, if it exists. -/
def activation (id : String) : Except DomainError Activation :=
  okOr (tables.activations.lookup id) .notFound

/-- The eligibility of a user for an entitlement that is in force. -/
def eligible (id user : String) (now : ℤ) : Except DomainError (String × Eligibility) :=
  okOr (tables.eligibilities.find? fun (_, el) =>
    el.entitlementId = id && el.userId = user &&
      (tables.entitlements.lookup id).any fun e =>
        el.revokedAt = none && el.notBefore ≤ now && now < el.expiresAt &&
          el.expiresAt - el.notBefore ≤ seconds e.configuration.maxEligibilitySeconds &&
          el.expiresAt ≤ now + seconds e.configuration.maxEligibilitySeconds &&
          inForce catalogue e && e.roleReference.isSome && catalogue.userActive user) .notFound

end Tables

/-! ### Commands -/

/-- Who is to be eligible. -/
structure EligibilityChange where
  userId : String
  notBefore : ℤ
  expiresAt : ℤ
  expectedRevision : Option String

/-- What a user asks for. -/
structure RequestActivation where
  entitlementId : String
  durationSeconds : ℤ
  reason : String

/-- What an approver says. -/
structure DecideRequest where
  requestId : String
  approve : Bool

/-- What is to end. -/
structure RevokeActivation where
  activationId : String
  reason : String

/-- What a transaction reads and generates: its clock, the later clock its queries read, and the
identifiers and revisions that are generated for it. -/
structure Tx where
  now : ℤ
  clock : ℤ
  id : String
  revision : String

/-- The history of requests and approvals, with the rows they were made against. -/
inductive Entry where
  | submitted (requestId : String) (entitlement : Entitlement) (eligibility : Eligibility)
  | approved (requestId activationId approver : String) (at_ : ℤ) (entitlement : Entitlement)
      (eligibility : Eligibility)
  deriving DecidableEq

/-- The fields alone. -/
def EntitlementConfiguration.validate (parseUrl : UrlParser)
    (c : EntitlementConfiguration) : Except DomainError Unit := do
  let _ ← (RoleName.parse c.roleName).mapError .roleName
  let _ ← (ResourceIdentifier.parse parseUrl c.resource).mapError fun _ => .invalid "resource"
    "the resource parameter does not name a resource this client may be issued a token for"
  refuseIf (c.approverUserIds = [] ∨ 16 < c.approverUserIds.length ∨ ¬c.approverUserIds.Nodup ∨
      (∀ id ∈ c.approverUserIds, id = c.ownerUserId) ∨
      ¬(1 ≤ c.maxDurationSeconds ∧ c.maxDurationSeconds ≤ 3600) ∨
      ¬(1 ≤ c.maxEligibilitySeconds ∧ c.maxEligibilitySeconds ≤ 2592000) ∨
      c.clientId = "" ∨ 2048 < c.clientId.utf8ByteSize ∨
      c.requesterAcr = "" ∨ 256 < c.requesterAcr.utf8ByteSize ∨
      c.approverAcr = "" ∨ 256 < c.approverAcr.utf8ByteSize ∨
      c.permissions = [] ∨ 64 < c.permissions.length ∨
      (∃ s ∈ c.permissions, ¬isScopeToken s ∨ ¬isResourcePermission s) ∨ ¬c.permissions.Nodup)
    (.invalid "entitlement" "invalid bounds or duplicate values")

/-- What it names exists. -/
def validateCatalogue (catalogue : Catalogue) (c : EntitlementConfiguration) :
    Except DomainError Unit := do
  refuseIf (∃ user ∈ c.ownerUserId :: c.approverUserIds, ¬catalogue.userActive user) .notFound
  refuseIf (¬catalogue.clientOpen c.clientId ∨ ¬catalogue.hasRole c.clientId c.roleName ∨
      ¬(catalogue.resourceScopes c.resource).any fun scopes =>
        scopes.all fun allowed => c.permissions.all (· ∈ allowed))
    (.invalid "catalogue" "current client, role and resource permissions required")

namespace Tables

variable (tables : Tables) (catalogue : Catalogue)

section Configuration

variable (parseUrl : UrlParser)

/-- Create an entitlement, or edit one at the revision that is expected. -/
def saveConfiguration (actor : String) (id expected : Option String)
    (c : EntitlementConfiguration) (tx : Tx) : Except DomainError Tables := do
  c.validate parseUrl
  refuseIf (c.ownerUserId ≠ actor) .notFound
  refuseIf (id.isSome ≠ expected.isSome)
    (.invalid "expected_revision" "required exactly for existing configuration")
  refuseIf (¬catalogue.acr.canProduce c.requesterAcr ∨ ¬catalogue.acr.canProduce c.approverAcr)
    (.invalid "acr" "unknown tenant assurance requirement")
  validateCatalogue catalogue c
  match id, expected with
  | some id, some expected =>
    let old ← tables.owner catalogue actor id
    refuseIf (old.revision ≠ expected) (.conflict "entitlement revision changed")
    refuseIf (old.configuration.clientId ≠ c.clientId ∨ old.configuration.resource ≠ c.resource ∨
        old.configuration.roleName ≠ c.roleName ∨ old.configuration.permissions ≠ c.permissions)
      (.invalid "configuration" "catalogue binding is immutable")
    -- a row that lost a reference stays disabled
    let whole := old.ownerReference.isSome && old.clientReference.isSome &&
      old.roleReference.isSome && old.resourceReference.isSome
    let row : Entitlement := { old with
      revision := tx.revision, editorUserId := actor
      configuration := { c with enabled := c.enabled && whole } }
    pure { tables with entitlements := tables.entitlements.insert id row }
  | _, _ =>
    let row : Entitlement :=
      { revision := tx.revision, editorUserId := actor, createdAt := tx.now, configuration := c
        ownerReference := some actor, clientReference := some c.clientId
        roleReference := some c.roleName, resourceReference := some c.resource }
    pure { tables with entitlements := tables.entitlements.insert tx.id row }

end Configuration

/-- Make a user eligible, or edit the eligibility at the revision that is expected. -/
def eligibilitySet (actor id : String) (c : EligibilityChange) (tx : Tx) :
    Except DomainError Tables := do
  let config ← tables.owner catalogue actor id
  let start := fromUnixTimestamp c.notBefore
  let stop := fromUnixTimestamp c.expiresAt
  let longest := seconds config.configuration.maxEligibilitySeconds
  refuseIf (stop ≤ tx.now ∨ stop ≤ start ∨ longest < stop - start ∨ longest < stop - tx.now)
    (.invalid "eligibility" "invalid or excessive interval")
  refuseIf (¬catalogue.userActive c.userId) .notFound
  let existing := tables.eligibilities.find? fun (_, el) =>
    el.entitlementId = id && el.userId = c.userId && el.revokedAt = none
  match existing, c.expectedRevision with
  | some (eligibilityId, el), some expected =>
    refuseIf (el.revision ≠ expected) (.conflict "eligibility revision changed")
    let row : Eligibility := { el with
      revision := tx.revision, editorUserId := actor, notBefore := start, expiresAt := stop }
    pure { tables with eligibilities := tables.eligibilities.insert eligibilityId row }
  | none, none =>
    let row : Eligibility :=
      { entitlementId := id, userId := c.userId, editorUserId := actor, revision := tx.revision
        notBefore := start, expiresAt := stop, revokedAt := none }
    pure { tables with eligibilities := tables.eligibilities.insert tx.id row }
  | _, _ => throw (.conflict "eligibility revision changed")

/-- The owner withdraws an eligibility. -/
def eligibilityRemove (actor id eligibilityId expected : String) (tx : Tx) :
    Except DomainError Tables := do
  let _ ← tables.owner catalogue actor id
  let el ← okOr ((tables.eligibilities.lookup eligibilityId).filter fun el =>
    el.entitlementId = id && el.revision = expected && el.revokedAt = none)
    (.conflict "eligibility revision changed")
  let row : Eligibility := { el with
    revision := tx.revision, editorUserId := actor, revokedAt := some tx.now }
  pure { tables with eligibilities := tables.eligibilities.insert eligibilityId row }

section Lifecycle

variable (ladderRevision : AcrPolicy → String)

/-- A request records the rows it was made against, by their revisions. -/
def submit (actor : SessionActor) (c : RequestActivation) (tx : Tx) :
    Except DomainError (Tables × Entry) := do
  validateReason c.reason
  session ladderRevision catalogue actor none tx.now
  let e ← tables.entitlement c.entitlementId
  session ladderRevision catalogue actor (some e.configuration.requesterAcr) tx.now
  let (eligibilityId, el) ← tables.eligible catalogue c.entitlementId actor.user tx.now
  refuseIf (¬∃ user ∈ e.configuration.approverUserIds,
      user ∉ [actor.user, e.editorUserId, el.editorUserId] ∧ catalogue.userActive user) .notFound
  refuseIf (¬(1 ≤ c.durationSeconds ∧ c.durationSeconds ≤ e.configuration.maxDurationSeconds))
    (.invalid "duration_seconds" "outside configured maximum")
  let row : EntitlementRequest :=
    { entitlementId := c.entitlementId, eligibilityId, eligibilityRevision := el.revision
      policyRevision := e.revision, requesterUserId := actor.user
      clientId := e.configuration.clientId, resource := e.configuration.resource
      roleName := e.configuration.roleName, permissions := e.configuration.permissions
      requesterAcr := e.configuration.requesterAcr, approverAcr := e.configuration.approverAcr
      durationSeconds := c.durationSeconds, reason := c.reason, createdAt := tx.now
      deadline := tx.now + seconds 300, status := .pending, decidedAt := none, decidedBy := none }
  pure ({ tables with requests := tables.requests.insert tx.id row }, .submitted tx.id e el)

/-- The activation of an approved request, unless one is live. -/
def activate (requestId : String) (r : EntitlementRequest) (revision : String) (stop : ℤ)
    (tx : Tx) : Except DomainError Tables := do
  refuseIf (∃ entry ∈ tables.activations,
      (tables.requests.lookup entry.2.requestId).any fun r' =>
        (tables.eligibilities.lookup r'.eligibilityId).any fun el =>
          entry.2.entitlementId = r.entitlementId && entry.2.userId = r.requesterUserId &&
            entry.2.revokedAt = none && tx.now < entry.2.expiresAt && el.revokedAt = none &&
            el.revision = r'.eligibilityRevision && r'.policyRevision = revision)
    (.conflict "an activation is already active")
  let row : Activation :=
    { requestId, entitlementId := r.entitlementId, userId := r.requesterUserId
      activatedAt := tx.now, expiresAt := min (tx.now + seconds r.durationSeconds) stop
      revokedAt := none, revocationReason := none, expiryRecordedAt := none }
  pure { tables with activations := tables.activations.insert tx.id row }

/-- An approval activates. -/
def activateIf (approve : Bool) (requestId : String) (r : EntitlementRequest) (revision : String)
    (stop : ℤ) (tx : Tx) : Except DomainError Tables :=
  if approve then tables.activate requestId r revision stop tx else .ok tables

/-- An approver decides. -/
def decision (actor : SessionActor) (c : DecideRequest) (tx : Tx) :
    Except DomainError (Tables × List Entry) := do
  session ladderRevision catalogue actor none tx.now
  let r ← tables.request catalogue c.requestId tx.clock
  let e ← tables.entitlement r.entitlementId
  refuseIf (actor.user ∉ e.configuration.approverUserIds ∨ r.requesterUserId = actor.user ∨
    e.editorUserId = actor.user) .notFound
  let (eligibilityId, el) ← tables.eligible catalogue r.entitlementId r.requesterUserId tx.now
  refuseIf (el.editorUserId = actor.user) .notFound
  session ladderRevision catalogue actor (some e.configuration.approverAcr) tx.now
  refuseIf (r.status ≠ .pending ∨ unixTimestamp r.deadline ≤ unixTimestamp tx.now ∨
      eligibilityId ≠ r.eligibilityId ∨ el.revision ≠ r.eligibilityRevision ∨
      e.revision ≠ r.policyRevision ∨ e.configuration.maxDurationSeconds < r.durationSeconds)
    (.conflict "approval snapshot is no longer current")
  let activated ← tables.activateIf c.approve c.requestId r e.revision el.expiresAt tx
  let decided := { r with
    status := if c.approve then .approved else .denied
    decidedAt := some tx.now, decidedBy := some actor.user }
  pure ({ activated with requests := activated.requests.insert c.requestId decided },
    if c.approve then [.approved c.requestId tx.id actor.user tx.now e el] else [])

/-- The requester cancels. -/
def cancellation (actor : SessionActor) (requestId : String) (tx : Tx) :
    Except DomainError Tables := do
  session ladderRevision catalogue actor none tx.now
  let r ← tables.request catalogue requestId tx.clock
  refuseIf (r.requesterUserId ≠ actor.user) .notFound
  refuseIf (r.status ≠ .pending ∨ unixTimestamp r.deadline ≤ unixTimestamp tx.now)
    (.conflict "request is terminal")
  let row : EntitlementRequest := { r with
    status := .cancelled, decidedAt := some tx.now, decidedBy := some actor.user }
  pure { tables with requests := tables.requests.insert requestId row }

/-- The owner of the entitlement may end an activation, and so may the user who holds it. -/
def mayRevoke (actor : String) (entitlementId : Option String) (a : Activation) :
    Except DomainError Unit :=
  match entitlementId with
  | some id => do
    refuseIf (id ≠ a.entitlementId) .notFound
    let _ ← tables.owner catalogue actor id
    pure ()
  | none => refuseIf (a.userId ≠ actor) .notFound

/-- Revoke it, unless it was. -/
def endActivation (c : RevokeActivation) (a : Activation) (tx : Tx) : Tables :=
  if a.revokedAt = none then
    let row : Activation := { a with
      revokedAt := some tx.now, revocationReason := some c.reason }
    { tables with activations := tables.activations.insert c.activationId row }
  else tables

/-- The user gives the role up in a session, or the owner of the entitlement ends it. -/
def revocation (actor : String) (sessionActor : Option SessionActor)
    (entitlementId : Option String) (c : RevokeActivation) (tx : Tx) :
    Except DomainError Tables := do
  validateReason c.reason
  sessionActor.forM (session ladderRevision catalogue · none tx.now)
  let a ← tables.activation c.activationId
  tables.mayRevoke catalogue actor entitlementId a
  pure (tables.endActivation c a tx)

end Lifecycle

/-- Record that activations have expired, the earliest first. -/
def expiry (limit : ℕ) (tx : Tx) : Except DomainError Tables := do
  refuseIf (¬(1 ≤ limit ∧ limit ≤ 100)) (.invalid "limit" "requires 1..100")
  let due := tables.activations.filter fun (_, a) =>
    a.expiresAt ≤ tx.now && a.expiryRecordedAt = none
  let chosen := (due.mergeSort fun x y =>
    x.2.expiresAt < y.2.expiresAt || x.2.expiresAt = y.2.expiresAt && x.1 ≤ y.1).take limit
  let recorded := tables.activations.updateWhere (fun id _ => id ∈ chosen.map Prod.fst)
    fun a => { a with expiryRecordedAt := some tx.now }
  pure { tables with activations := recorded }

end Tables

/-! ### Resolution -/

/-- The authentication a grant was authorized with, with the proof frozen then. -/
structure FrozenAuthentication where
  acr : Option String
  proof : AssuranceProof
  deriving DecidableEq

/-- A grant as the resolver reads it. -/
structure RoleGrant extends Grant where
  tenant : String
  authentication : Option FrozenAuthentication

/-- A role that is active. -/
structure ActiveTemporaryRole where
  activationId : String
  entitlementId : String
  client : String
  resource : String
  permissions : List String
  policyRevision : String
  eligibilityRevision : String
  role : String
  expiresAt : ℤ
  deriving DecidableEq

/-- A row of the resolver's query. -/
structure ResolvedRow where
  activationId : String
  activation : Activation
  request : EntitlementRequest
  entitlement : Entitlement
  eligibility : Eligibility
  deriving DecidableEq

namespace Tables

variable (tables : Tables) (catalogue : Catalogue)

/-- The join of an activation with what it stems from, if it is live. -/
def liveRow (now : ℤ) (entry : String × Activation) : Option ResolvedRow :=
  match tables.requests.lookup entry.2.requestId with
  | none => none
  | some r =>
    match tables.entitlements.lookup r.entitlementId,
      tables.eligibilities.lookup r.eligibilityId with
    | some e, some el =>
      if inForce catalogue e ∧
      (∃ client ∈ e.clientReference, ∃ role ∈ e.roleReference,
        catalogue.hasRole client role) ∧
      e.revision = r.policyRevision ∧ el.revision = r.eligibilityRevision ∧
      el.userId = entry.2.userId ∧ el.revokedAt = none ∧ el.notBefore ≤ now ∧
      now < el.expiresAt ∧ entry.2.revokedAt = none ∧ entry.2.activatedAt ≤ now ∧
      now < entry.2.expiresAt ∧ r.status = .approved ∧ catalogue.userActive entry.2.userId then
        some ⟨entry.1, entry.2, r, e, el⟩
      else none
    | _, _ => none

/-- The query of the resolver. -/
def resolvedRows (user client resource : String) (permissions : Finset String) (now : ℤ) :
    List ResolvedRow :=
  let rows := (tables.activations.filterMap (tables.liveRow catalogue now)).filter fun row =>
    row.activation.userId = user && row.entitlement.configuration.clientId = client &&
      row.entitlement.configuration.resource = resource &&
      row.entitlement.configuration.permissions.all (· ∈ permissions)
  (rows.mergeSort fun x y =>
    x.activation.expiresAt < y.activation.expiresAt ||
      x.activation.expiresAt = y.activation.expiresAt && x.activationId ≤ y.activationId).take 100

/-- The roles that a grant of the tenant carries at a moment. -/
def resolve (ladderRevision : AcrPolicy → String) (tenant : String) (grant : RoleGrant) (now : ℤ) :
    Except DomainError (List ActiveTemporaryRole) :=
  if grant.tenant ≠ tenant ∨ grant.resources.card ≠ 1 ∨ grant.actorChain ≠ [] ∨
      grant.task.isSome ∨ grant.parent.isSome ∨ ¬grant.mayIssue now then .ok []
  else match grant.user, grant.authentication with
    | some user, some authentication =>
      match authentication.proof.provedAt with
      | none => .ok []
      | some provedAt =>
        if now - provedAt < 0 ∨ seconds 120 < now - provedAt then .ok []
        else match grant.resources.sort (· ≤ ·) with
          | [] => .error (.invalid "resources" "exactly one resource required")
          | resource :: _ =>
            let rows := tables.resolvedRows catalogue user grant.client resource grant.scopes now
            if authentication.proof.revision ≠ some (ladderRevision catalogue.acr) then .ok []
            else if ¬authentication.acr.any (fun claimed => (catalogue.acr.level claimed).any
              (·.isMetBy authentication.proof.methods)) then .ok []
            else (rows.filter fun row =>
              resourcePermissionsExact row.entitlement.configuration.permissions grant.scopes &&
                assuranceCurrent ladderRevision catalogue.acr
                  row.entitlement.configuration.requesterAcr authentication.proof now).mapM
              fun row => do
                let role ← (RoleName.parse row.entitlement.configuration.roleName).mapError
                  .roleName
                pure { activationId := row.activationId, entitlementId := row.request.entitlementId
                       client := row.entitlement.configuration.clientId, resource
                       permissions := row.entitlement.configuration.permissions
                       policyRevision := row.entitlement.revision
                       eligibilityRevision := row.eligibility.revision
                       role
                       expiresAt := row.activation.expiresAt }
    | _, _ => .ok []

end Tables

/-! ### Histories -/

/-- What a user can do. -/
inductive Command where
  | configure (actor : String) (id expected : Option String) (c : EntitlementConfiguration)
  | setEligibility (actor id : String) (c : EligibilityChange)
  | removeEligibility (actor id eligibilityId expected : String)
  | submit (actor : SessionActor) (c : RequestActivation)
  | decide (actor : SessionActor) (c : DecideRequest)
  | cancel (actor : SessionActor) (requestId : String)
  | revoke (actor : String) (sessionActor : Option SessionActor) (entitlementId : Option String)
      (c : RevokeActivation)
  | expire (limit : ℕ)

/-- The tables, what the other tables say, the clock, the identifiers and revisions that were ever
generated, and the history. -/
structure State where
  tables : Tables
  catalogue : Catalogue
  clock : ℤ
  used : Finset String
  log : List Entry

/-- The references of an entitlement that are dropped with what they name. -/
structure Dropped where
  owner : Bool
  role : Bool
  resource : Bool

/-- What a trigger does to an entitlement whose owner, client, role or resource changed. -/
def Entitlement.disable (e : Entitlement) (dropped : Dropped) (revision : String) : Entitlement :=
  { e with
    revision
    configuration := { e.configuration with enabled := false }
    ownerReference := if dropped.owner then none else e.ownerReference
    clientReference := if dropped.role then none else e.clientReference
    roleReference := if dropped.role then none else e.roleReference
    resourceReference := if dropped.resource then none else e.resourceReference }

/-- Revoke it, unless it was. -/
def Eligibility.withdraw (el : Eligibility) (now : ℤ) (revision : String) : Eligibility :=
  { el with revision, revokedAt := el.revokedAt.or (some now) }

/-- What happens. -/
inductive Event where
  | run (command : Command) (tx : Tx)
  /-- Something changes in the other tables. -/
  | setCatalogue (catalogue : Catalogue)
  /-- A trigger disables an entitlement. -/
  | disable (id : String) (dropped : Dropped) (tx : Tx)
  /-- A trigger ends the eligibility of a user who is no longer active. -/
  | withdraw (eligibilityId : String) (tx : Tx)

section System

variable (parseUrl : UrlParser) (ladderRevision : AcrPolicy → String)

/-- One transaction. -/
def Command.run (tables : Tables) (catalogue : Catalogue) (tx : Tx) :
    Command → Except DomainError (Tables × List Entry)
  | .configure actor id expected c =>
    (·, []) <$> tables.saveConfiguration catalogue parseUrl actor id expected c tx
  | .setEligibility actor id c => (·, []) <$> tables.eligibilitySet catalogue actor id c tx
  | .removeEligibility actor id eligibilityId expected =>
    (·, []) <$> tables.eligibilityRemove catalogue actor id eligibilityId expected tx
  | .submit actor c =>
    (fun result => (result.1, [result.2])) <$> tables.submit catalogue ladderRevision actor c tx
  | .decide actor c => tables.decision catalogue ladderRevision actor c tx
  | .cancel actor requestId =>
    (·, []) <$> tables.cancellation catalogue ladderRevision actor requestId tx
  | .revoke actor sessionActor entitlementId c =>
    (·, []) <$> tables.revocation catalogue ladderRevision actor sessionActor entitlementId c tx
  | .expire limit => (·, []) <$> tables.expiry limit tx

namespace State

/-- The transaction can run now: the clock does not go back, and what is generated is new. -/
def admits (s : State) (tx : Tx) : Bool :=
  s.clock ≤ tx.now ∧ tx.now ≤ tx.clock ∧ tx.id ∉ s.used ∧ tx.revision ∉ s.used

/-- The state after a transaction has committed. -/
def commit (s : State) (tx : Tx) (tables : Tables) (entries : List Entry) : State :=
  { s with tables, clock := tx.clock, used := s.used ∪ {tx.id, tx.revision},
           log := s.log ++ entries }

/-- The state after an event. -/
def apply (s : State) : Event → Option State
  | .run command tx =>
    if ¬s.admits tx then none
    else match command.run parseUrl ladderRevision s.tables s.catalogue tx with
      | .ok (tables, entries) => some (s.commit tx tables entries)
      | .error _ => none
  | .setCatalogue catalogue => some { s with catalogue }
  | .disable id dropped tx =>
    if ¬s.admits tx then none
    else (s.tables.entitlements.lookup id).map fun e =>
      s.commit tx { s.tables with entitlements :=
        s.tables.entitlements.insert id (e.disable dropped tx.revision) } []
  | .withdraw eligibilityId tx =>
    if ¬s.admits tx then none
    else (s.tables.eligibilities.lookup eligibilityId).map fun el =>
      s.commit tx { s.tables with eligibilities :=
        s.tables.eligibilities.insert eligibilityId (el.withdraw tx.now tx.revision) } []

end State

/-- The histories of a tenant's temporary entitlements. -/
def system : Transition.System State Event :=
  .ofPartial (State.apply parseUrl ladderRevision)

end System

/-- Nothing is configured yet. -/
def State.init (catalogue : Catalogue) (clock : ℤ) : State :=
  { tables := ⟨[], [], [], []⟩, catalogue, clock, used := ∅, log := [] }

end AsteriusIdp.Entitlements
