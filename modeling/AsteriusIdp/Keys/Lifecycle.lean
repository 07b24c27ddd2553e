import AsteriusIdp.Json
import AsteriusIdp.Keys.Kek
import AsteriusIdp.Lib.Transition
import AsteriusIdp.Time

/-!
# The life of a signing key

A key is staged `pending`, signs while it is `active`, stays published while it is `retiring` and is
`retired` after that; an operator can retire or purge a key that does not sign.  The keys and the
rotation schedules are one tenant's, and every operation runs under the tenant's rotation lock, so
that `State` goes from one to the next.  What `SigningKey::generate`, the thumbprint and the KEK
give for a new key, or the error of theirs, is an argument of the pass that needs it.
-/

namespace AsteriusIdp.Keys

namespace Lifecycle

open Fallible

/-- Why an operation is refused. -/
inductive DomainError where
  | notFound
  | invalid (field reason : String)
  | conflict (reason : String)
  | storage
  deriving DecidableEq, Repr

/-- Where a key stands. -/
inductive KeyState where
  | pending
  | active
  | retiring
  | retired
  | purged
  deriving DecidableEq, Repr

namespace KeyState

/-- Its stored name. -/
def asStr : KeyState → String
  | pending => "pending"
  | active => "active"
  | retiring => "retiring"
  | retired => "retired"
  | purged => "purged"

/-- A key in this state is in the published JWK Set. -/
def isPublished : KeyState → Bool
  | pending | active | retiring => true
  | retired | purged => false

/-- The position in the JWK Set. -/
def position : KeyState → ℕ
  | active => 0
  | pending => 1
  | _ => 2

end KeyState

/-! ### Schedules -/

/-- When keys are rotated. -/
structure RotationSchedule where
  rotationPeriod : ℤ
  propagationPeriod : ℤ
  gracePeriod : ℤ
  lastRotatedAt : Option ℤ
  deriving DecidableEq, Repr

namespace RotationSchedule

/-- What the table holds: a new key at least once a year, that propagates before the next one. -/
structure Sane (schedule : RotationSchedule) : Prop where
  rotation : seconds 3600 ≤ schedule.rotationPeriod ∧ schedule.rotationPeriod ≤ seconds 31536000
  propagation : 0 < schedule.propagationPeriod ∧
    schedule.propagationPeriod < schedule.rotationPeriod
  grace : 0 < schedule.gracePeriod ∧ schedule.gracePeriod ≤ seconds 31536000

instance (schedule : RotationSchedule) : Decidable schedule.Sane :=
  decidable_of_iff ((seconds 3600 ≤ schedule.rotationPeriod ∧
      schedule.rotationPeriod ≤ seconds 31536000) ∧
    (0 < schedule.propagationPeriod ∧ schedule.propagationPeriod < schedule.rotationPeriod) ∧
    0 < schedule.gracePeriod ∧ schedule.gracePeriod ≤ seconds 31536000)
    ⟨fun ⟨h, h', h''⟩ => ⟨h, h', h''⟩, fun ⟨h, h', h''⟩ => ⟨h, h', h''⟩⟩

/-- A new key is due. -/
def isDue (schedule : RotationSchedule) (now : ℤ) : Bool :=
  schedule.lastRotatedAt.all fun last => last + schedule.rotationPeriod ≤ now

end RotationSchedule

/-- A row of `key_rotation_schedules`. -/
def Schedule := { schedule : RotationSchedule // schedule.Sane }

namespace Schedule

/-- Ninety days, fifteen minutes and seven days. -/
def default : Schedule := ⟨⟨seconds 7776000, seconds 900, seconds 604800, none⟩, by decide⟩

/-- Rotated now. -/
def rotated (schedule : Schedule) (now : ℤ) : Schedule :=
  ⟨{ schedule.val with lastRotatedAt := some now },
    ⟨schedule.property.rotation, schedule.property.propagation, schedule.property.grace⟩⟩

end Schedule

/-- The column of a period. -/
def wholeSeconds (duration : ℤ) (field : String) : Except DomainError ℤ :=
  if duration < 0 ∨ duration % 1000000000 ≠ 0 then
    .error (.invalid field "must be a positive whole number of seconds")
  else .ok (duration / 1000000000)

/-! ### Rows -/

/-- A row of `signing_keys`. -/
structure KeyRow where
  algorithm : SigningAlgorithm
  purpose : KeyPurpose
  publicJwk : Json
  /-- The sealed private half; null once the key is purged. -/
  privateKey : Option WrappedKey
  state : KeyState
  createdAt : ℤ
  activatedAt : Option ℤ
  retiringAt : Option ℤ
  retiredAt : Option ℤ
  purgedAt : Option ℤ

namespace KeyRow

/-- A signing key of an algorithm in a state. -/
def is (algorithm : SigningAlgorithm) (state : KeyState) (row : KeyRow) : Bool :=
  row.purpose = .signing && row.algorithm = algorithm && row.state = state

/-- The key signs. -/
def activate (row : KeyRow) (now : ℤ) : KeyRow :=
  { row with state := .active, activatedAt := some now }

/-- It only verifies. -/
def supersede (row : KeyRow) (now : ℤ) : KeyRow :=
  { row with state := .retiring, retiringAt := some now }

/-- It is withdrawn. -/
def retire (row : KeyRow) (now : ℤ) : KeyRow :=
  { row with state := .retired, retiredAt := some now }

/-- The material goes; a key that had left the JWK Set keeps the moment it left. -/
def purge (row : KeyRow) (now : ℤ) : KeyRow :=
  { row with
    state := .purged, privateKey := none, retiredAt := row.retiredAt.or (some now)
    purgedAt := some now }

end KeyRow

/-- A generated key: its thumbprint, its public half as a JWK, and the sealed private half. -/
structure NewKey where
  kid : String
  jwk : Object
  privateKey : WrappedKey
  use_eq : jwk.lookup "use" = some (.str "sig")

/-- The row of a new key; the first one of its algorithm is active at once. -/
def NewKey.row (key : NewKey) (algorithm : SigningAlgorithm) (now : ℤ) (first : Bool) : KeyRow :=
  { algorithm, purpose := .signing, publicJwk := .obj (key.jwk.insert "kid" (.str key.kid))
    privateKey := some key.privateKey, state := if first then .active else .pending
    createdAt := now, activatedAt := if first then some now else none
    retiringAt := none, retiredAt := none, purgedAt := none }

/-- The keys and schedules of a tenant. -/
structure State where
  keys : Entries String KeyRow
  schedules : SigningAlgorithm → Option Schedule

/-- Nothing yet. -/
def State.init : State := ⟨[], fun _ => none⟩

/-- What a pass did. -/
structure KeyRotation where
  created : Option String := none
  activated : Option String := none
  superseded : Option String := none
  retired : List String := []
  deriving DecidableEq, Repr

/-- What a purge reports. -/
structure KeyPurge where
  kid : String
  previousState : KeyState
  destroyed : Bool
  deriving DecidableEq, Repr

namespace State

variable (s : State)

/-! ### The statements -/

/-- The signing key under an identifier. -/
def signingKey (kid : String) : Option KeyRow :=
  (s.keys.lookup kid).filter (·.purpose = .signing)

/-- The first signing key of an algorithm in a state. -/
def find (algorithm : SigningAlgorithm) (state : KeyState) : Option String :=
  (s.keys.find? fun e => e.2.is algorithm state).map Prod.fst

/-- The schedule of an algorithm, the default one if it has none. -/
def ensureSchedule (algorithm : SigningAlgorithm) : Schedule :=
  (s.schedules algorithm).getD .default

/-- With a schedule. -/
def withSchedule (algorithm : SigningAlgorithm) (schedule : Schedule) : State :=
  { s with schedules := Function.update s.schedules algorithm (some schedule) }

/-- The key's grace period has expired, whatever its algorithm. -/
def lapsed (cutoff : ℤ) (row : KeyRow) : Bool :=
  row.purpose = .signing && row.state = .retiring && row.retiringAt.any (· ≤ cutoff)

/-- Retire what has been retiring since the cutoff or longer. -/
def sweep (cutoff now : ℤ) : List String × State :=
  ((s.keys.filter fun e => lapsed cutoff e.2).map Prod.fst,
    { s with keys := s.keys.updateWhere (fun _ row => lapsed cutoff row) (·.retire now) })

/-- The staged key of an algorithm that was created by the cutoff. -/
def ready (algorithm : SigningAlgorithm) (cutoff : ℤ) : Option String :=
  (s.keys.find? fun e => e.2.is algorithm .pending && e.2.createdAt ≤ cutoff).map Prod.fst

/-- A key takes the place of the active one of its algorithm. -/
def promote (algorithm : SigningAlgorithm) (kid : String) (now : ℤ) : State :=
  let demoted := s.keys.updateWhere (fun _ row => row.is algorithm .active) (·.supersede now)
  { s with keys := demoted.updateWhere (fun k _ => k = kid) (·.activate now) }

/-- The staged key of the algorithm, or a new one. -/
def stage (algorithm : SigningAlgorithm) (now : ℤ) (generated : Except DomainError NewKey) :
    Except DomainError (String × State) :=
  match s.find algorithm .pending with
  | some staged => pure (staged, s)
  | none => do
    let key ← generated
    let row := key.row algorithm now (s.find algorithm .active).isNone
    refuseIf (s.keys.lookup key.kid).isSome (.conflict "signing_keys_pkey")
    pure (key.kid, { s with keys := s.keys.insert key.kid row })

/-! ### The operations -/

/-- A pass over an algorithm, on schedule or forced. -/
def run (algorithm : SigningAlgorithm) (now : ℤ) (forced : Bool)
    (generated : Except DomainError NewKey) : Except DomainError (KeyRotation × State) := do
  let schedule := s.ensureSchedule algorithm
  let s := s.withSchedule algorithm schedule
  let (retired, s) := s.sweep (now - schedule.val.gracePeriod) now
  let activated := s.ready algorithm (now - schedule.val.propagationPeriod)
  let superseded := activated.bind fun _ => s.find algorithm .active
  let s := activated.elim s fun kid => s.promote algorithm kid now
  if forced || schedule.val.isDue now then
    let (created, s) ← s.stage algorithm now generated
    pure (⟨some created, activated, superseded, retired⟩,
      s.withSchedule algorithm (schedule.rotated now))
  else pure (⟨none, activated, superseded, retired⟩, s)

/-- Rotate in any case. -/
def rotate (algorithm : SigningAlgorithm) (now : ℤ) (generated : Except DomainError NewKey) :
    Except DomainError (KeyRotation × State) := s.run algorithm now true generated

/-- Rotate when due. -/
def applySchedule (algorithm : SigningAlgorithm) (now : ℤ)
    (generated : Except DomainError NewKey) : Except DomainError (KeyRotation × State) :=
  s.run algorithm now false generated

/-- Promote a staged key now. -/
def activate (kid : String) (now : ℤ) : Except DomainError (KeyRotation × State) := do
  let row ← okOr (s.signingKey kid) .notFound
  match row.state with
  | .active => pure ({}, s)
  | .pending =>
    pure (⟨none, some kid, s.find row.algorithm .active, []⟩, s.promote row.algorithm kid now)
  | state => throw (.conflict ("key " ++ kid ++ " is " ++ state.asStr ++
      ", and a key that has stopped signing is not brought back"))

/-- Take a key out of the JWK Set now. -/
def retire (kid : String) (now : ℤ) : Except DomainError (KeyRotation × State) := do
  let row ← okOr (s.signingKey kid) .notFound
  match row.state with
  | .retired | .purged => pure ({}, s)
  | .active => throw (.conflict ("key " ++ kid ++ " is the active " ++ row.algorithm.asStr ++
      " key; rotate to replace it rather than retiring the key the tenant signs with"))
  | _ => pure (⟨none, none, none, [kid]⟩,
      { s with keys := s.keys.updateWhere (fun k _ => k = kid) (·.retire now) })

/-- Destroy the material of a key. -/
def purge (kid : String) (now : ℤ) : Except DomainError (KeyPurge × State) := do
  let row ← okOr (s.signingKey kid) .notFound
  match row.state with
  | .active => throw (.conflict ("key " ++ kid ++ " is the active " ++ row.algorithm.asStr ++
      " key; rotate with immediate activation to replace it, then purge it"))
  | .purged => pure (⟨kid, .purged, false⟩, s)
  | state => pure (⟨kid, state, true⟩,
      { s with keys := s.keys.updateWhere (fun k _ => k = kid) (·.purge now) })

/-- Replace a schedule; when it was last rotated stays. -/
def setSchedule (algorithm : SigningAlgorithm) (schedule : RotationSchedule) :
    Except DomainError State := do
  let rotation ← wholeSeconds schedule.rotationPeriod "rotation_period"
  let propagation ← wholeSeconds schedule.propagationPeriod "propagation_period"
  let grace ← wholeSeconds schedule.gracePeriod "grace_period"
  let row : RotationSchedule :=
    ⟨seconds rotation, seconds propagation, seconds grace,
      (s.schedules algorithm).bind (·.val.lastRotatedAt)⟩
  if h : row.Sane then pure (s.withSchedule algorithm ⟨row, h⟩)
  else throw .storage

/-! ### The JWK Set -/

end State

/-- What is published of a key. -/
structure PublicKeyRecord where
  kid : String
  algorithm : SigningAlgorithm
  purpose : KeyPurpose
  state : KeyState
  publicJwk : Json
  createdAt : ℤ

/-- The record of a row, when its JWK says what the row does. -/
def intoRecord (e : String × KeyRow) : Except DomainError PublicKeyRecord :=
  if (e.2.publicJwk.member "use").bind Json.asStr ≠ some e.2.purpose.asStr then
    .error (.invalid "public_jwk" "the JWK `use` member disagrees with the stored purpose")
  else .ok ⟨e.1, e.2.algorithm, e.2.purpose, e.2.state, e.2.publicJwk, e.2.createdAt⟩

/-- The order of the JWK Set: by position, the newest first, by identifier. -/
def inOrder (x y : String × KeyRow) : Bool :=
  x.2.state.position < y.2.state.position || x.2.state.position = y.2.state.position &&
    (y.2.createdAt < x.2.createdAt || y.2.createdAt = x.2.createdAt && x.1 ≤ y.1)

/-- The published keys, in order. -/
def State.publishedKeys (s : State) : Except DomainError (List PublicKeyRecord) :=
  ((s.keys.filter fun e => e.2.state.isPublished).mergeSort inOrder).mapM intoRecord

/-! ### Histories -/

/-- What happens to the keys. -/
inductive Event where
  | run (algorithm : SigningAlgorithm) (now : ℤ) (forced : Bool)
    (generated : Except DomainError NewKey)
  | activate (kid : String) (now : ℤ)
  | retire (kid : String) (now : ℤ)
  | purge (kid : String) (now : ℤ)
  | setSchedule (algorithm : SigningAlgorithm) (schedule : RotationSchedule)

/-- The state that a transaction leaves: its own, or the old one when it fails. -/
def State.commit {α : Type} (s : State) (result : Except DomainError (α × State)) : State :=
  match result with
  | .ok (_, s') => s'
  | .error _ => s

/-- The state after an event. -/
def State.apply (s : State) : Event → State
  | .run algorithm now forced generated => s.commit (s.run algorithm now forced generated)
  | .activate kid now => s.commit (s.activate kid now)
  | .retire kid now => s.commit (s.retire kid now)
  | .purge kid now => s.commit (s.purge kid now)
  | .setSchedule algorithm schedule => (s.setSchedule algorithm schedule).toOption.getD s

/-- The histories of a tenant's keys. -/
def system : Transition.System State Event := .ofPartial fun s e => some (s.apply e)

end Lifecycle

end AsteriusIdp.Keys
