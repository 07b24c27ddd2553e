import AsteriusIdp.Lib.Entries
import AsteriusIdp.Lib.Transition
import AsteriusIdp.Time

/-!
# Sessions in the store

A session is a row that its digest names.  A touch and a rotation read the row and the tenant's
session policy first, in statements of their own, and write afterwards under guards of their own; a
rotation changes the digest.  A revocation looks the digest up and writes in a second statement.

`State.apply` runs one statement of one of any number of requests, so that a run of `system` is an
interleaving of them.
-/

namespace AsteriusIdp.Sessions

/-! ### Rows -/

/-- Why a session ended. -/
inductive SessionRevocation where
  | userLogout
  | administrative
  | credentialChange
  | rotated
  | accountClosed
  | suspicious
  deriving DecidableEq

namespace SessionRevocation

/-- Its stored name. -/
def asStr : SessionRevocation → String
  | userLogout => "user_logout"
  | administrative => "administrative"
  | credentialChange => "credential_change"
  | rotated => "rotated"
  | accountClosed => "account_closed"
  | suspicious => "suspicious"

/-- The reason of a name. -/
def parse (value : String) : Option SessionRevocation :=
  [userLogout, administrative, credentialChange, rotated, accountClosed, suspicious].find?
    (·.asStr = value)

end SessionRevocation

/-- What a lookup reports. -/
inductive SessionStatus where
  | active
  | idle
  | expired
  | revoked (reason : SessionRevocation)
  deriving DecidableEq

/-- A row of the table of sessions. -/
structure Session where
  /-- What relying parties know the session by; it stays when the digest is replaced. -/
  publicSid : String
  user : String
  createdAt : ℤ
  authenticatedAt : ℤ
  lastSeenAt : ℤ
  expiresAt : ℤ
  idleExpiresAt : ℤ
  acr : Option String
  amr : List String
  revokedAt : Option ℤ
  revocationReason : Option String
  deriving DecidableEq

/-- The lifetimes a tenant configured, in seconds. -/
structure SessionPolicy where
  idle : ℤ
  absolute : ℤ
  absolute_bounded : 60 ≤ absolute ∧ absolute ≤ 43200
  idle_bounded : 60 ≤ idle ∧ idle ≤ absolute
  deriving DecidableEq

/-- What a rotation has proved. -/
structure VerifiedSessionRotation where
  methods : List String
  acr : Option String
  assuranceAuthenticatedAt : Option ℤ
  assurancePolicyRevision : Option String
  assuranceMethods : List String
  deriving DecidableEq

namespace Session

/-- A reason that is not known still revokes. -/
def revoked (session : Session) : Option (ℤ × SessionRevocation) :=
  session.revokedAt.map fun at_ =>
    (at_, (session.revocationReason.bind SessionRevocation.parse).getD .administrative)

/-- What it is at some instant. -/
def status (session : Session) (now : ℤ) : SessionStatus :=
  match session.revoked with
  | some (_, reason) => .revoked reason
  | none =>
    if session.expiresAt ≤ now then .expired
    else if session.idleExpiresAt ≤ now then .idle
    else .active

end Session

/-- A policy only ever brings the deadlines of a session forward. -/
def SessionPolicy.constrain (policy : SessionPolicy) (session : Session) : Session :=
  let expiresAt := min session.expiresAt (session.createdAt + seconds policy.absolute)
  { session with
    expiresAt
    idleExpiresAt :=
      min (min session.idleExpiresAt (session.lastSeenAt + seconds policy.idle)) expiresAt }

/-- The session as a lookup reports it under the policy of the tenant. -/
def Session.under (session : Session) (policy : Option SessionPolicy) : Session :=
  policy.elim session (·.constrain session)

/-! ### Statements -/

namespace Session

/-- What the writing statements of a touch and a rotation ask of the row. -/
def live (session : Session) (now : ℤ) : Bool :=
  session.revokedAt = none ∧ now < session.expiresAt ∧ now < session.idleExpiresAt

/-- Seen now. -/
def touched (session : Session) (now deadline : ℤ) : Session :=
  { session with
    lastSeenAt := max session.lastSeenAt now
    idleExpiresAt := min session.expiresAt (max session.idleExpiresAt deadline) }

/-- Signed in again. -/
def rotated (session : Session) (proof : VerifiedSessionRotation) (now : ℤ) : Session :=
  { session with
    authenticatedAt := now
    lastSeenAt := max session.lastSeenAt now
    amr := proof.methods
    acr := proof.acr }

/-- The first reason is kept. -/
def revoke (session : Session) (reason : SessionRevocation) (now : ℤ) : Session :=
  { session with
    revokedAt := session.revokedAt.or (some now)
    revocationReason := session.revocationReason.or (some reason.asStr) }

end Session

/-- Storing the proof of a rotation fails, and the transaction with it. -/
def VerifiedSessionRotation.refused (proof : VerifiedSessionRotation) (now : ℤ) : Bool :=
  match proof.assuranceAuthenticatedAt, proof.assurancePolicyRevision with
  | some at_, some _ => now < at_ || proof.assuranceMethods = []
  | _, _ => false

/-- The table of sessions, by digest. -/
abbrev Table := Entries String Session

namespace Table

/-- Touch a live session. -/
def touchStored (sessions : Table) (digest : String) (now deadline : ℤ) : Table :=
  sessions.updateWhere (fun d session => d = digest && session.live now)
    (·.touched now deadline)

/-- The writing transaction of a rotation, if it commits. -/
def rotate (sessions : Table) (oldDigest newDigest : String) (proof : VerifiedSessionRotation)
    (now : ℤ) : Option Table :=
  match sessions.lookup oldDigest with
  | none => none
  | some session =>
    if !session.live now then none
    -- the digest is a primary key
    else if (sessions.erase oldDigest).contains newDigest then none
    else if proof.refused now then none
    else some ((sessions.erase oldDigest).insert newDigest (session.rotated proof now))

/-- Revoke a session. -/
def revoke (sessions : Table) (digest : String) (reason : SessionRevocation) (now : ℤ) :
    Table :=
  sessions.updateWhere (fun d _ => d = digest) (·.revoke reason now)

end Table

/-! ### Requests -/

/-- What a session is looked up for. -/
inductive Purpose where
  | touch (idle : ℤ)
  | rotate (newDigest : String) (proof : VerifiedSessionRotation)
  deriving DecidableEq

/-- What is asked of the store. -/
inductive Request where
  | find (purpose : Purpose) (digest : String)
  | revoke (digest : String) (reason : SessionRevocation)

/-- How far a request got: the statement it runs next, with what it has read.  `now` is its one
reading of the clock. -/
inductive Phase where
  | absent
  /-- The row is to be read. -/
  | finding (purpose : Purpose) (digest : String) (now : ℤ)
  /-- The policy is to be read, to constrain the row. -/
  | constraining (purpose : Purpose) (digest : String) (now : ℤ) (session : Session)
  /-- A touch found the session usable and reads the policy again, for the idle lifetime. -/
  | extending (digest : String) (now idle : ℤ) (session : Session)
  | touching (digest : String) (now deadline : ℤ)
  | rotating (oldDigest newDigest : String) (proof : VerifiedSessionRotation) (now : ℤ)
  /-- A revocation is to look the digest up. -/
  | naming (digest : String) (reason : SessionRevocation) (now : ℤ)
  | revoking (digest : String) (reason : SessionRevocation) (now : ℤ)
  | answered (ok : Bool)
  deriving DecidableEq

/-- The database, the clock and the requests. -/
structure State where
  sessions : Table
  policy : Option SessionPolicy
  /-- The last reading of the clock. -/
  clock : ℤ
  /-- The digests that were ever generated. -/
  digests : Finset String
  requests : ℕ → Phase

/-- Go on with a session that was found. -/
def Phase.proceed (purpose : Purpose) (digest : String) (now : ℤ) (session : Session) : Phase :=
  if session.status now = .active then
    match purpose with
    | .touch idle => .extending digest now idle session
    | .rotate newDigest proof => .rotating digest newDigest proof now
  else .answered false

namespace State

/-- One statement: what it makes of the sessions and of the request that runs it. -/
def statement (s : State) : Phase → Table × Phase
  | .finding purpose digest now => match s.sessions.lookup digest with
    | none => (s.sessions, .answered false)
    | some session => (s.sessions, .constraining purpose digest now session)
  | .constraining purpose digest now session =>
    (s.sessions, .proceed purpose digest now (session.under s.policy))
  | .extending digest now idle session =>
    (s.sessions, .touching digest now
      (min (now + s.policy.elim idle (seconds ·.idle)) session.expiresAt))
  | .touching digest now deadline =>
    (s.sessions.touchStored digest now deadline,
      .answered ((s.sessions.lookup digest).any (·.live now)))
  | .rotating oldDigest newDigest proof now =>
    match s.sessions.rotate oldDigest newDigest proof now with
    | none => (s.sessions, .answered false)
    | some sessions => (sessions, .answered true)
  | .naming digest reason now => match s.sessions.lookup digest with
    | none => (s.sessions, .answered false)
    | some _ => (s.sessions, .revoking digest reason now)
  | .revoking digest reason now => (s.sessions.revoke digest reason now, .answered true)
  | phase => (s.sessions, phase)

end State

/-- What happens. -/
inductive Event where
  /-- The tenant's settings are saved. -/
  | setPolicy (policy : Option SessionPolicy)
  /-- A request arrives and reads the clock. -/
  | arrive (r : ℕ) (request : Request) (now : ℤ)
  /-- A request runs its next statement. -/
  | advance (r : ℕ)

/-- The digest a rotation has generated. -/
def Request.newDigest : Request → Option String
  | .find (.rotate newDigest _) _ => some newDigest
  | _ => none

/-- The first statement. -/
def Request.start (now : ℤ) : Request → Phase
  | .find purpose digest => .finding purpose digest now
  | .revoke digest reason => .naming digest reason now

namespace State

/-- One step.  The clock does not go back, and a generated digest was never seen before. -/
def apply (s : State) : Event → Option State
  | .setPolicy policy => some { s with policy }
  | .arrive r request now =>
    match s.requests r with
    | .absent =>
      if now < s.clock ∨ ∃ digest ∈ request.newDigest, digest ∈ s.digests then none
      else some { s with
        clock := now
        digests := s.digests ∪ request.newDigest.toFinset
        requests := Function.update s.requests r (request.start now) }
    | _ => none
  | .advance r =>
    let (sessions, phase) := s.statement (s.requests r)
    some { s with sessions, requests := Function.update s.requests r phase }

end State

/-- The runs of the store: every interleaving of the statements of the requests. -/
def system : Transition.System State Event := .ofPartial State.apply

/-- No request has arrived, and no two sessions have the same public identifier. -/
structure State.Initial (s : State) : Prop where
  absent : ∀ r, s.requests r = .absent
  distinct : ∀ d d' session session', s.sessions.lookup d = some session →
    s.sessions.lookup d' = some session' → session.publicSid = session'.publicSid → d = d'
  known : ∀ d, (s.sessions.lookup d).isSome → d ∈ s.digests

end AsteriusIdp.Sessions
