import AsteriusIdp.Json
import AsteriusIdp.Lib.Text
import AsteriusIdp.Lib.Transition
import AsteriusIdp.Time

/-!
# The transactional outbox

Rows are enqueued with the change they describe, claimed by workers under a lease, and acknowledged
after a delivery attempt.  A claim counts as an attempt; an acknowledgement counts only while the
row is claimed under the attempt it is for.  A row with an ordering key waits for every earlier row
of the key that is still owed.

Each transaction is atomic, so that `State` goes from one to the next.  A row's identifier is drawn
before its transaction commits, so that rows need not appear in the order of their identifiers.
`held` are the claims that some worker is still working on; `handed` and `acked` are the history of
claims and of the acknowledgements that took effect.
-/

namespace AsteriusIdp.Outbox

/-- Where a row stands. -/
inductive Status where
  | pending
  | claimed
  | delivered
  | failed
  | abandoned
  | expired
  deriving DecidableEq, Repr

/-- The row is still to be delivered. -/
def Status.owed : Status → Bool
  | pending | failed | claimed => true
  | delivered | abandoned | expired => false

/-- A stored event. -/
structure Row where
  tenant : String
  kind : String
  destination : String
  payload : Json
  orderingKey : Option String
  status : Status
  attempts : ℕ
  maxAttempts : ℕ
  createdAt : ℤ
  availableAt : ℤ
  deliveredAt : Option ℤ
  lastError : Option String
  claimedBy : Option String
  claimExpiresAt : Option ℤ

/-- What is enqueued. -/
structure NewOutboxEntry where
  kind : String
  destination : String
  payload : Json
  orderingKey : Option String
  maxAttempts : Option ℕ

/-- A claimed row, as a worker is handed it. -/
structure OutboxEvent where
  tenant : String
  id : ℕ
  kind : String
  destination : String
  payload : Json
  attempt : ℕ
  maxAttempts : ℕ
  createdAt : ℤ
  deriving DecidableEq

/-- There is no other attempt. -/
def OutboxEvent.isFinalAttempt (event : OutboxEvent) : Bool := event.maxAttempts ≤ event.attempt

/-- How an attempt ended. -/
inductive Verdict where
  | delivered
  | journalled
  | expired
  | retry
  | abandoned
  deriving DecidableEq, Repr

/-- What a worker reports. -/
structure Outcome where
  verdict : Verdict
  at_ : ℤ
  detail : Option String

/-- A failure; whether it is the last one is the event's to say. -/
def Outcome.failed (event : OutboxEvent) (at_ : ℤ) (detail : String) : Outcome :=
  ⟨if event.isFinalAttempt then .abandoned else .retry, at_, some detail⟩

/-- What a worker reports after an attempt. -/
inductive Outcome.Reported (event : OutboxEvent) : Outcome → Prop
  | delivered (at_ : ℤ) : Reported event ⟨.delivered, at_, none⟩
  | journalled (at_ : ℤ) : Reported event ⟨.journalled, at_, none⟩
  | expired (at_ : ℤ) : Reported event ⟨.expired, at_, none⟩
  | abandoned (at_ : ℤ) (detail : String) : Reported event ⟨.abandoned, at_, some detail⟩
  | failed (at_ : ℤ) (detail : String) : Reported event (.failed event at_ detail)

/-- How long a failed row waits. -/
structure Backoff where
  base : ℤ
  cap : ℤ
  base_nonneg : 0 ≤ base
  cap_nonneg : 0 ≤ cap

namespace Backoff

/-- Doubled with each attempt up to the cap, and spread by the row. -/
def delay (b : Backoff) (attempt id : ℕ) : ℤ :=
  let capped := min (b.base * 2 ^ min (attempt - 1) 20) b.cap
  capped + capped / 8 / 8 * (id % 8 : ℕ)

theorem delay_nonneg (b : Backoff) (attempt id : ℕ) : 0 ≤ b.delay attempt id := by
  have hsc : 0 ≤ b.base * 2 ^ min (attempt - 1) 20 :=
    Int.mul_nonneg b.base_nonneg (Int.pow_nonneg (by decide))
  have hca : 0 ≤ min (b.base * 2 ^ min (attempt - 1) 20) b.cap := le_min hsc b.cap_nonneg
  have hspr : 0 ≤ min (b.base * 2 ^ min (attempt - 1) 20) b.cap / 8 / 8 := by omega
  exact Int.add_nonneg hca (Int.mul_nonneg hspr (Int.natCast_nonneg _))

end Backoff

/-- The schedule of a deployment. -/
structure Config where
  backoff : Backoff
  lease : ℤ
  maxAttempts : ℕ

/-- A row of `outbox_attempts`. -/
structure Attempt where
  id : ℕ
  attempt : ℕ
  at_ : ℤ
  verdict : Verdict
  detail : Option String

/-- A claim in a worker's hands. -/
structure Held where
  worker : String
  event : OutboxEvent
  deriving DecidableEq

/-- The row and the attempt that a claim is for. -/
def Held.key (h : Held) : ℕ × ℕ := (h.event.id, h.event.attempt)

/-- The row of a new entry.  One that chooses no budget gets ten attempts. -/
def NewOutboxEntry.row (entry : NewOutboxEntry) (tenant : String) (now : ℤ) : Row :=
  { tenant, kind := entry.kind, destination := entry.destination, payload := entry.payload
    orderingKey := entry.orderingKey, status := .pending, attempts := 0
    maxAttempts := entry.maxAttempts.elim 10 (min · (2 ^ 31 - 1)), createdAt := now
    availableAt := now, deliveredAt := none, lastError := none, claimedBy := none
    claimExpiresAt := none }

/-- The row under a new claim. -/
def Row.claim (row : Row) (worker : String) (expires : ℤ) : Row :=
  { row with status := .claimed, claimedBy := some worker, claimExpiresAt := some expires
             attempts := row.attempts + 1 }

/-- The row as it is handed out. -/
def Row.event (row : Row) (id : ℕ) : OutboxEvent :=
  { tenant := row.tenant, id, kind := row.kind, destination := row.destination
    payload := row.payload, attempt := row.attempts, maxAttempts := row.maxAttempts
    createdAt := row.createdAt }

/-- Drop the claim. -/
def Row.release (row : Row) : Row := { row with claimedBy := none, claimExpiresAt := none }

/-- What an acknowledgement makes of a row. -/
def Row.settle (config : Config) (event : OutboxEvent) (outcome : Outcome) (row : Row) : Row :=
  let settled : Row :=
    match outcome.verdict with
    | .delivered =>
      { row.release with status := .delivered, deliveredAt := some outcome.at_, lastError := none }
    | .journalled =>
      { row.release with status := .delivered, deliveredAt := none, lastError := none }
    | .retry =>
      { row.release with
        status := .failed, lastError := outcome.detail
        availableAt := outcome.at_ + config.backoff.delay event.attempt event.id }
    | .abandoned => { row.release with status := .abandoned, lastError := outcome.detail }
    | .expired => { row.release with status := .expired, lastError := none }
  -- an account link is not kept once it was sent or is of no use
  if Text.opensWith "notification." event.kind ∧ outcome.verdict ∈ [.delivered, .expired] then
    { settled with payload := .obj [], destination := "" }
  else settled

/-- The row is open again, with a fresh budget on top of what was spent. -/
def Row.requeue (config : Config) (row : Row) (now : ℤ) : Row :=
  { row.release with
    status := .pending, availableAt := now, lastError := none
    maxAttempts := row.attempts + min config.maxAttempts (2 ^ 31 - 1) }

/-- The rows and their history. -/
structure State where
  rows : Entries ℕ Row
  trail : List Attempt
  held : List Held
  handed : List Held
  acked : List (ℕ × ℕ)

/-- Nothing yet. -/
def State.init : State := ⟨[], [], [], [], []⟩

namespace State

variable (s : State)

/-- Write a row under an identifier that no other row has. -/
def enqueue (id : ℕ) (tenant : String) (entry : NewOutboxEntry) (now : ℤ) : State :=
  match s.rows.lookup id with
  | none => { s with rows := s.rows.insert id (entry.row tenant now) }
  | some _ => s

/-! ### Claiming -/

/-- An earlier row of the same tenant and key is still owed. -/
def blocked (id : ℕ) (row : Row) : Bool :=
  row.orderingKey.isSome && s.rows.any fun earlier =>
    earlier.2.tenant = row.tenant && earlier.2.orderingKey = row.orderingKey && earlier.1 < id &&
      earlier.2.status.owed

/-- The row can be claimed now. -/
def due (now : ℤ) (entry : ℕ × Row) : Bool :=
  entry.2.availableAt ≤ now &&
    (entry.2.status = .pending || entry.2.status = .failed ||
      entry.2.status = .claimed && entry.2.claimExpiresAt.any (· ≤ now)) &&
    entry.2.attempts < entry.2.maxAttempts && !s.blocked entry.1 entry.2

/-- The order in which rows are claimed. -/
def before (x y : ℕ × Row) : Bool :=
  x.2.availableAt < y.2.availableAt || x.2.availableAt = y.2.availableAt && x.1 ≤ y.1

/-- The rows that a claim takes; it skips rows that another transaction has locked. -/
def chosen (limit : ℕ) (now : ℤ) (locked : List ℕ) : List (ℕ × Row) :=
  ((s.rows.filter fun entry => s.due now entry && entry.1 ∉ locked).mergeSort before).take limit

/-- Take up to `limit` rows that are due. -/
def claim (config : Config) (worker : String) (limit : ℕ) (now : ℤ) (locked : List ℕ) : State :=
  let taken := s.chosen limit now locked
  let claims : List Held := taken.map fun entry =>
    ⟨worker, (entry.2.claim worker (now + config.lease)).event entry.1⟩
  { s with
    rows := s.rows.updateWhere (fun id _ => id ∈ taken.map Prod.fst)
      (·.claim worker (now + config.lease))
    held := s.held ++ claims, handed := s.handed ++ claims }

/-! ### Acknowledging -/

/-- The row an acknowledgement is for, while it is claimed under that attempt. -/
def current (event : OutboxEvent) : Option Row :=
  (s.rows.lookup event.id).filter fun row =>
    row.tenant = event.tenant && row.status = .claimed && row.attempts = event.attempt

/-- The trail with an attempt, unless it has one of that number. -/
def record (event : OutboxEvent) (outcome : Outcome) : List Attempt :=
  if s.trail.any fun a => a.id = event.id && a.attempt = event.attempt then s.trail
  else s.trail ++ [⟨event.id, event.attempt, outcome.at_, outcome.verdict, outcome.detail⟩]

/-- Record the outcome of a claim. -/
def ack (config : Config) (event : OutboxEvent) (outcome : Outcome) : State :=
  match s.current event with
  | none => s
  | some row =>
    { s with
      rows := s.rows.insert event.id (row.settle config event outcome)
      trail := s.record event outcome
      acked := s.acked ++ [(event.id, event.attempt)] }

/-- Open a dead letter again.  The statement fails when the budget is no 32-bit number. -/
def requeue (config : Config) (tenant : String) (id : ℕ) (now : ℤ) : State :=
  match s.rows.lookup id with
  | none => s
  | some row =>
    if row.tenant = tenant ∧ row.status = .abandoned ∧
    (row.requeue config now).maxAttempts < 2 ^ 31 then
      { s with rows := s.rows.insert id (row.requeue config now) }
    else s

/-- A worker is done with a claim, or lost it. -/
def drop (h : Held) : State := { s with held := s.held.filter (· ≠ h) }

end State

/-! ### Histories -/

/-- What happens to the outbox. -/
inductive Event where
  | enqueue (id : ℕ) (tenant : String) (entry : NewOutboxEntry) (now : ℤ)
  | poll (worker : String) (limit : ℕ) (now : ℤ) (locked : List ℕ)
  | ack (claim : Held) (outcome : Outcome)
  /-- A worker dies, or cannot reach the database to acknowledge. -/
  | crash (claim : Held)
  | requeue (tenant : String) (id : ℕ) (now : ℤ)

section System

variable (config : Config)

/-- The state after an event. -/
def State.apply (s : State) : Event → State
  | .enqueue id tenant entry now => s.enqueue id tenant entry now
  | .poll worker limit now locked => s.claim config worker limit now locked
  | .ack h outcome => (s.ack config h.event outcome).drop h
  | .crash h => s.drop h
  | .requeue tenant id now => s.requeue config tenant id now

/-- The histories of the outbox. -/
def system : Transition.System State Event := .ofPartial fun s e => some (s.apply config e)

end System

end AsteriusIdp.Outbox
