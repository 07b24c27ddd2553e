import AsteriusIdp.Time

/-!
# Device authorizations

A device polls with its code while somebody approves or refuses under the code that was typed.
-/

namespace AsteriusIdp.Device

/-- What the user has said. -/
inductive Status
  | pending
  | approved
  | denied
  deriving DecidableEq

/-- A stored device authorization. -/
structure Row where
  clientId : String
  status : Status
  grantId : Option String
  expiresAt : ℤ
  redeemedAt : Option ℤ
  lastPolledAt : Option ℤ
  /-- In seconds. -/
  pollInterval : ℤ
  failedAttempts : ℤ
  dpopJkt : Option String

/-- The answer to a poll. -/
inductive Poll
  | pending
  | slowDown (interval : ℤ)
  | approved
  | denied
  | expired
  | spent

/-- What a redemption returns. -/
structure Redeemed where
  clientId : String
  grantId : String
  dpopJkt : Option String

namespace Row

variable (row : Row) (now : ℤ)

/-- A new row. -/
def issue (clientId : String) (expiresAt pollInterval : ℤ) (dpopJkt : Option String) : Row :=
  ⟨clientId, .pending, none, expiresAt, none, none, pollInterval, 0, dpopJkt⟩

/-- The last poll is less than an interval ago. -/
def tooFast : Bool := row.lastPolledAt.any (now < · + seconds row.pollInterval)

/-- The decision is taken from the row as it was before the poll. -/
def poll (slowDown : ℤ) : Poll × Row :=
  let interval := if row.status ≠ .approved ∧ row.tooFast now then row.pollInterval + slowDown
    else row.pollInterval
  let state := if row.expiresAt ≤ now then .expired
    else if row.redeemedAt.isSome then .spent
    else match row.status with
      | .approved => .approved
      | .denied => .denied
      | .pending => if row.tooFast now then .slowDown interval else .pending
  (state, { row with lastPolledAt := some now, pollInterval := interval })

/-- Redeem an approved row, once. -/
def redeem : Option Redeemed × Row :=
  if row.status = .approved ∧ row.redeemedAt = none ∧ now < row.expiresAt then
    (row.grantId.map (⟨row.clientId, ·, row.dpopJkt⟩), { row with redeemedAt := some now })
  else (none, row)

/-- Not answered, and not too late to be. -/
def live : Bool := row.status = .pending ∧ now < row.expiresAt

/-- The user agrees. -/
def approve (grant : String) : Row :=
  if row.live now then { row with status := .approved, grantId := some grant } else row

/-- The user refuses. -/
def deny : Row := if row.live now then { row with status := .denied } else row

/-- A wrong code; at the ceiling the row is denied. -/
def recordFailure (ceiling : ℤ) : Row :=
  if now < row.expiresAt then { row with
    failedAttempts := row.failedAttempts + 1
    status := if ceiling ≤ row.failedAttempts + 1 ∧ row.status = .pending then .denied
      else row.status }
  else row

end Row

/-- What happens to a row. -/
inductive Event
  | poll (slowDown : ℤ)
  | redeem
  | approve (grant : String)
  | deny
  | recordFailure (ceiling : ℤ)
  /-- The grant is deleted, which clears the column. -/
  | deleteGrant

/-- The row and what was redeemed. -/
structure State where
  row : Row
  redeemed : List (ℤ × Redeemed) := []

namespace State

/-- The state after an event at some instant. -/
def next (s : State) (now : ℤ) : Event → State
  | .poll slowDown => { s with row := (s.row.poll now slowDown).2 }
  | .redeem => ⟨(s.row.redeem now).2, ((s.row.redeem now).1.map (now, ·)).toList ++ s.redeemed⟩
  | .approve grant => { s with row := s.row.approve now grant }
  | .deny => { s with row := s.row.deny now }
  | .recordFailure ceiling => { s with row := s.row.recordFailure now ceiling }
  | .deleteGrant => { s with row := { s.row with grantId := none } }

/-- The state after a list of events. -/
def run : State → List (ℤ × Event) → State := List.foldl fun s e => s.next e.1 e.2

variable {row : Row} {s : State} {events : List (ℤ × Event)} {now : ℤ} {event : Event}

/-- `row` is as issued. -/
structure Sound (row : Row) (events : List (ℤ × Event)) (s : State) : Prop where
  same : s.row.clientId = row.clientId ∧ s.row.expiresAt = row.expiresAt ∧
    s.row.dpopJkt = row.dpopJkt
  unspent : s.row.redeemedAt = none → s.redeemed = []
  granted : ∀ grant ∈ s.row.grantId, ∃ t < row.expiresAt, (t, .approve grant) ∈ events
  redeemed : s.redeemed = [] ∨ s.row.status = .approved ∧ ∃ grant,
    (∃ t < row.expiresAt, (t, .approve grant) ∈ events) ∧
    ∃ t < row.expiresAt, s.redeemed = [(t, ⟨row.clientId, grant, row.dpopJkt⟩)]

theorem Sound.next (hs : Sound row events s) (he : (now, event) ∈ events) :
    Sound row events (s.next now event) := by
  obtain ⟨hsm, hun, hgrd, hred⟩ := hs
  cases event with
  | redeem =>
    by_cases hopen : s.row.status = .approved ∧ s.row.redeemedAt = none ∧ now < s.row.expiresAt
    · rw [State.next, Row.redeem, if_pos hopen, hun hopen.2.1]
      refine ⟨hsm, by simp, hgrd, ?_⟩
      cases hgr : s.row.grantId with
      | none => exact .inl rfl
      | some grant =>
        exact .inr ⟨hopen.1, grant, hgrd grant hgr, now, hsm.2.1 ▸ hopen.2.2,
          by simp [hsm]⟩
    · rw [State.next, Row.redeem, if_neg hopen]
      exact ⟨hsm, hun, hgrd, hred⟩
  | _ =>
    constructor <;>
      simp only [State.next, Row.poll, Row.approve, Row.deny, Row.recordFailure, Row.live] <;> grind

/-- **Redeemed once.**  In any order, at any instants, an authorization is redeemed at most once,
before it expires, for the client and key it was issued to and a grant approved in time. -/
theorem redeemed_once (clientId : String) (expiresAt pollInterval : ℤ) (dpopJkt : Option String)
    (events : List (ℤ × Event)) :
    let s := run { row := .issue clientId expiresAt pollInterval dpopJkt } events
    s.redeemed = [] ∨ s.row.status = .approved ∧ ∃ grant,
      (∃ t < expiresAt, (t, .approve grant) ∈ events) ∧
      ∃ t < expiresAt, s.redeemed = [(t, ⟨clientId, grant, dpopJkt⟩)] := by
  intro s
  have hs : Sound (.issue clientId expiresAt pollInterval dpopJkt) events s :=
    List.foldlRecOn events _ ⟨⟨rfl, rfl, rfl⟩, fun _ => rfl, by simp [Row.issue], .inl rfl⟩
      fun _ hs _ he => hs.next he
  exact hs.redeemed

end State

end AsteriusIdp.Device
