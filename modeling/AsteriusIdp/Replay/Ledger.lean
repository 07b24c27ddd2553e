import AsteriusIdp.Lib.Transition
import AsteriusIdp.Replay.Message

/-!
# The replay table

The table `jti_replay` has one row per message that was accepted, under the tenant, the purpose,
who chose the identifier and the digest of the identifier.  A message is accepted when it passes
its checks and its row can be inserted; the retention job deletes rows that have expired.

`replay` is the system of presentations and purges at instants that never decrease.

* `remembered_step`: a purge that leaves alone the rows whose message can still pass keeps every
  accepted message remembered for as long as it passes.
* `accepted_once`: a run all of whose purges do so accepts no message twice.
* `assertion_accepted_once`: for client assertions every run does.
-/

namespace AsteriusIdp.Replay

open Transition

/-- A row of `jti_replay`. -/
structure Row where
  tenant : String
  purpose : ReplayPurpose
  subject : String
  jtiHash : String
  expiresAt : ℤ
  deriving DecidableEq, Repr

/-- Whether an identifier was new. -/
inductive ReplayCheck
  | firstUse
  | replay
  deriving DecidableEq, Repr

/-- Is this the row under the given primary key? -/
def Row.under (row : Row) (tenant : String) (purpose : ReplayPurpose) (subject jtiHash : String) :
    Bool :=
  row.tenant = tenant ∧ row.purpose = purpose ∧ row.subject = subject ∧ row.jtiHash = jtiHash

/-- `insert ... on conflict do nothing`. -/
def claim (rows : List Row) (row : Row) : ReplayCheck × List Row :=
  if rows.any fun r => r.under row.tenant row.purpose row.subject row.jtiHash then (.replay, rows)
  else (.firstUse, row :: rows)

/-- Is the row among those a purge deletes?  The retention job deletes in batches, and which
expired rows make up a batch is the database's choice. -/
def Row.purged (row : Row) (tenant : String) (now : ℤ) (batch : Row → Bool) : Bool :=
  row.tenant = tenant ∧ row.expiresAt ≤ now ∧ batch row

/-- Delete a batch of a tenant's expired rows. -/
def purgeExpired (rows : List Row) (tenant : String) (now : ℤ) (batch : Row → Bool) : List Row :=
  rows.filter fun row => !row.purged tenant now batch

/-! ### Presentations and purges -/

/-- The clock, the table, and which messages have been accepted so far. -/
structure State where
  now : ℤ
  rows : List Row
  accepted : List (String × Message)
  deriving Repr

/-- What happens to the table. -/
inductive Event
  /-- A tenant's endpoint is shown a message.  `sound` says whether it passes every check but the
  clock's and the replay table's: signature, audience, method and so on. -/
  | present (tenant : String) (m : Message) (sound : Bool)
  | purge (tenant : String) (batch : Row → Bool)

/-- What stays fixed in a run: the deployment's rules, and the digest of an identifier. -/
structure Deployment where
  rules : Rules
  sha256 : String → String

namespace Deployment

variable (d : Deployment)

/-- The row of a message. -/
def row (tenant : String) (m : Message) (expiresAt : ℤ) : Row where
  tenant := tenant
  purpose := m.purpose
  subject := m.subject
  jtiHash := d.sha256 m.jti
  expiresAt := expiresAt

/-- Check a message, then claim its identifier. -/
def present (s : State) (now : ℤ) (tenant : String) (m : Message) (sound : Bool) : State :=
  match sound, m.expiry d.rules now with
  | true, some expiresAt =>
    match claim s.rows (d.row tenant m expiresAt) with
    | (.firstUse, rows) => { now := now, rows := rows, accepted := (tenant, m) :: s.accepted }
    | (.replay, rows) => { now := now, rows := rows, accepted := s.accepted }
  | _, _ => { s with now := now }

/-- The state an event at an instant leads to. -/
def next (s : State) (now : ℤ) : Event → State
  | .present tenant m sound => d.present s now tenant m sound
  | .purge tenant batch => { s with now := now, rows := purgeExpired s.rows tenant now batch }

/-- Presentations and purges at instants that never decrease. -/
def replay : System State (ℤ × Event) where
  step s l s' := s.now ≤ l.1 ∧ s' = d.next s l.1 l.2

end Deployment

/-- A purge deletes no row of this purpose whose message can still pass. -/
def Spares (p : ReplayPurpose) (s : State) : ℤ × Event → Prop
  | (_, .present ..) => True
  | (now, .purge tenant batch) => ∀ row ∈ s.rows, row.purged tenant now batch = true →
      row.purpose = p → ¬Passable p row.expiresAt now

/-- A purge deletes no DPoP row at the very instant it expires, and no row of an HTTP signature
within a second of it. -/
def Clear (s : State) : ℤ × Event → Prop
  | (_, .present ..) => True
  | (now, .purge tenant batch) => ∀ row ∈ s.rows, row.purged tenant now batch = true →
      (row.purpose = .dpopProof → row.expiresAt ≠ now) ∧
      (row.purpose = .httpSignature → row.expiresAt + seconds 1 ≤ now)

instance (s : State) (l : ℤ × Event) : Decidable (Clear s l) :=
  match l with
  | (_, .present ..) => isTrue trivial
  | (now, .purge tenant batch) =>
    inferInstanceAs (Decidable (∀ row ∈ s.rows, row.purged tenant now batch = true →
      (row.purpose = .dpopProof → row.expiresAt ≠ now) ∧
      (row.purpose = .httpSignature → row.expiresAt + seconds 1 ≤ now)))

theorem Clear.spares {s : State} {l : ℤ × Event} (h : Clear s l) (p : ReplayPurpose) :
    Spares p s l := by
  obtain ⟨now, ⟨tenant, m, sound⟩ | ⟨tenant, batch⟩⟩ := l
  · trivial
  · rintro row hrow hpu rfl
    obtain ⟨hdp, hht⟩ := h row hrow hpu
    have hle : row.expiresAt ≤ now := by
      simp only [Row.purged, decide_eq_true_eq] at hpu
      exact hpu.2.1
    cases hp : row.purpose with
    | clientAssertion => exact Int.not_lt.2 hle
    | dpopProof => exact Int.not_le.2 (Int.lt_iff_le_and_ne.2 ⟨hle, hdp hp⟩)
    | adminIdempotency => exact id
    | httpSignature => exact Int.not_lt.2 (hht hp)

/-- What a client assertion's row stands for has expired with it. -/
theorem spares_clientAssertion (s : State) (l : ℤ × Event) : Spares .clientAssertion s l := by
  obtain ⟨now, ⟨tenant, m, sound⟩ | ⟨tenant, batch⟩⟩ := l
  · trivial
  · intro _ _ hpu _
    simp only [Row.purged, decide_eq_true_eq] at hpu
    exact Int.not_lt.2 hpu.2.1

/-! ### What a run remembers -/

section Runs

variable (d : Deployment) (tenant : String) (m : Message)

/-- As long as the message can pass, its row is there. -/
def Remembered (s : State) : Prop :=
  ∀ now e, s.now ≤ now → m.expiry d.rules now = some e → d.row tenant m e ∈ s.rows

/-- The message has been accepted at most once, and if it has, it is remembered. -/
def Once (s : State) : Prop :=
  s.accepted.count (tenant, m) ≤ 1 ∧ ((tenant, m) ∈ s.accepted → Remembered d tenant m s)

variable {d tenant m} {s s' : State} {l : ℤ × Event}

theorem Remembered.of_rows (h : Remembered d tenant m s) (hnow : s.now ≤ s'.now)
    (hrs : ∀ row ∈ s.rows, row ∈ s'.rows) : Remembered d tenant m s' :=
  fun now e hle he => hrs _ (h now e (Int.le_trans hnow hle) he)

/-- What a claim does: it refuses an identifier that has a row, and gives one to any other. -/
theorem claim_cases (rows : List Row) (row : Row) :
    (claim rows row = (.replay, rows) ∧
      ∃ r ∈ rows, r.under row.tenant row.purpose row.subject row.jtiHash = true) ∨
    (claim rows row = (.firstUse, row :: rows) ∧ row ∉ rows) := by
  unfold claim
  split_ifs with h
  · exact .inl ⟨rfl, List.any_eq_true.1 h⟩
  · refine .inr ⟨rfl, fun hmem => h (List.any_eq_true.2 ⟨row, hmem, ?_⟩)⟩
    simp [Row.under]

/-- What a presentation does: nothing but move the clock, or accept a message that passes and has
no row, and give it one. -/
theorem present_cases (s : State) (now : ℤ) (tenant : String) (m : Message) (sound : Bool) :
    d.present s now tenant m sound = { s with now := now } ∨
    ∃ e, m.expiry d.rules now = some e ∧ d.row tenant m e ∉ s.rows ∧
    d.present s now tenant m sound =
      { now := now, rows := d.row tenant m e :: s.rows,
        accepted := (tenant, m) :: s.accepted } := by
  unfold Deployment.present
  cases sound with
  | false => exact .inl rfl
  | true =>
    cases he : m.expiry d.rules now with
    | none => exact .inl rfl
    | some e =>
      rcases claim_cases s.rows (d.row tenant m e) with ⟨hcl, -⟩ | ⟨hcl, hnew⟩
      · exact .inl (by simp [hcl])
      · exact .inr ⟨e, rfl, hnew, by simp [hcl]⟩

variable {now : ℤ}

theorem Remembered.purge (h : Remembered d tenant m s) {tenant' : String} {batch : Row → Bool}
    (hle : s.now ≤ now) (hsp : Spares m.purpose s (now, .purge tenant' batch)) :
    Remembered d tenant m (d.next s now (.purge tenant' batch)) := by
  intro now' e hle' he
  have hrow := h now' e (Int.le_trans hle hle') he
  refine List.mem_filter.2 ⟨hrow, ?_⟩
  -- a deleted row would stand for a message that no longer passes, but this one does
  by_contra hpu
  simp only [Bool.not_eq_true', Bool.not_eq_false] at hpu
  exact hsp _ hrow hpu rfl ((Message.passable_of_expiry he).of_le hle')

/-- One step keeps every accepted message remembered, and accepts none that is. -/
theorem remembered_step (h : d.replay.step s l s') (hsp : Spares m.purpose s l)
    (hs : Once d tenant m s) : Once d tenant m s' := by
  obtain ⟨now, ⟨tenant', m', sound⟩ | ⟨tenant', batch⟩⟩ := l
  · obtain ⟨hnow, rfl⟩ := h
    have hpr := present_cases (d := d) s now tenant' m' sound
    simp only [Deployment.next]
    rcases hpr with heq | ⟨e, he, hnew, heq⟩
    · rw [heq]
      exact ⟨hs.1, fun hmem => (hs.2 hmem).of_rows hnow fun _ hrow => hrow⟩
    · rw [heq]
      by_cases hsm : (tenant', m') = (tenant, m)
      · obtain ⟨rfl, rfl⟩ := Prod.mk.inj hsm
        have hfr : (tenant', m') ∉ s.accepted := fun hmem => hnew (hs.2 hmem now e hnow he)
        refine ⟨?_, fun _ now' e' _ he' => ?_⟩
        · simp [List.count_eq_zero.2 hfr]
        · rw [Message.expiry_eq he' he]
          exact List.mem_cons_self
      · refine ⟨?_, fun hmem => ?_⟩
        · simpa [List.count_cons_of_ne hsm] using hs.1
        · have hmem' := (List.mem_cons.1 hmem).resolve_left (Ne.symm hsm)
          exact (hs.2 hmem').of_rows hnow fun _ hrow => List.mem_cons_of_mem _ hrow
  · obtain ⟨hnow, rfl⟩ := h
    exact ⟨hs.1, fun hmem => (hs.2 hmem).purge hnow hsp⟩

variable {ls : List (ℤ × Event)} {rows : List Row}

/-- A run that spares the rows of the message's purpose accepts the message at most once. -/
theorem once_of_path {A : System State (ℤ × Event)}
    (hst : ∀ s l s', A.step s l s' → d.replay.step s l s' ∧ Spares m.purpose s l)
    (h : A.Path { now := now, rows := rows, accepted := [] } ls s) : Once d tenant m s := by
  refine h.invariant (I := Once d tenant m) (fun s l s' hl hs => ?_) ⟨by simp, by simp⟩
  obtain ⟨hre, hsp⟩ := hst s l s' hl
  exact remembered_step hre hsp hs

/-- In every run a client assertion is accepted at most once: its row expires when it does. -/
theorem assertion_accepted_once
    (h : d.replay.Path { now := now, rows := rows, accepted := [] } ls s)
    (tenant clientId jti : String) (claims : Times) :
    s.accepted.count (tenant, .clientAssertion clientId jti claims) ≤ 1 :=
  (once_of_path (m := .clientAssertion clientId jti claims)
    (fun s l _ hl => ⟨hl, spares_clientAssertion s l⟩) h).1

/-- **One use each.**  From any table, in every run whose purges leave DPoP rows alone at the
instant they expire and HTTP signature rows alone for a second after it, no message is accepted
twice, and an accepted message has its row for as long as it can pass. -/
theorem accepted_once {ls : List (ℤ × Event)} {now : ℤ} {rows : List Row}
    (h : (d.replay.restrict Clear).Path { now := now, rows := rows, accepted := [] } ls s) :
    s.accepted.Nodup ∧ ∀ tenant m, (tenant, m) ∈ s.accepted → Remembered d tenant m s := by
  have hon (tenant : String) (m : Message) : Once d tenant m s :=
    once_of_path (A := d.replay.restrict Clear) (fun _ _ _ hl => ⟨hl.1, hl.2.spares _⟩) h
  refine ⟨List.nodup_iff_count_le_one.2 ?_, fun tenant m => (hon tenant m).2⟩
  rintro ⟨tenant, m⟩
  exact (hon tenant m).1

end Runs

/-! ### The boundary -/

/-- Proofs are good for five minutes, and identifiers are their own digests. -/
def fiveMinutes : Deployment where
  rules := { dpop := { maxAge := seconds 300, futureSkew := defaultFutureSkew }
             maxLifetime := seconds 300 }
  sha256 := fun jti => jti

/-- A proof issued at 0. -/
def earlyProof : Message :=
  .dpopProof "jkt" "proof-1" { exp := none, nbf := none, iat := some (.whole 0) }

/-- A request signed for the first minute. -/
def earlyRequest : Message := .httpRequest "peer" ⟨0, 60, "nonce-0123456789", "key"⟩

/-- The proof and the request are presented twice each, purged a second after the proof's row
expired, and presented once more. -/
def earlyRun : List (ℤ × Event) :=
  [(seconds 1, .present "t" earlyProof true), (seconds 2, .present "t" earlyProof true),
    (seconds 3, .present "t" earlyRequest true), (seconds 60, .present "t" earlyRequest true),
    (seconds 301, .purge "t" fun _ => true), (seconds 301, .present "t" earlyProof true),
    (seconds 302, .present "t" earlyRequest true)]

/-- Where that leads: an empty table, and either message accepted. -/
def earlyEnd : State where
  now := seconds 302
  rows := []
  accepted := [("t", earlyRequest), ("t", earlyProof)]

theorem accepted_once_early :
    (fiveMinutes.replay.restrict Clear).Path { now := 0, rows := [], accepted := [] } earlyRun
        earlyEnd ∧ earlyEnd.accepted.Nodup ∧
      ∀ tenant m, (tenant, m) ∈ earlyEnd.accepted → Remembered fiveMinutes tenant m earlyEnd := by
  have hp : (fiveMinutes.replay.restrict Clear).Path { now := 0, rows := [], accepted := [] }
      earlyRun earlyEnd :=
    .cons ⟨⟨by decide, rfl⟩, by decide⟩ <| .cons ⟨⟨by decide, rfl⟩, by decide⟩ <|
    .cons ⟨⟨by decide, rfl⟩, by decide⟩ <| .cons ⟨⟨by decide, rfl⟩, by decide⟩ <|
    .cons ⟨⟨by decide, rfl⟩, by decide⟩ <| .cons ⟨⟨by decide, rfl⟩, by decide⟩ <|
    .cons ⟨⟨by decide, rfl⟩, by decide⟩ <| .nil _
  exact ⟨hp, accepted_once hp⟩

/-- A proof that is presented and purged at the last instant it passes is accepted again at that
instant; a request that is purged when its row expires is accepted again within the second. -/
theorem accepted_twice_at_expiry :
    (∃ s, fiveMinutes.replay.Path { now := 0, rows := [], accepted := [] }
        [(seconds 1, .present "t" earlyProof true), (seconds 300, .purge "t" fun _ => true),
          (seconds 300, .present "t" earlyProof true)] s ∧ ¬s.accepted.Nodup) ∧
    ∃ s, fiveMinutes.replay.Path { now := 0, rows := [], accepted := [] }
        [(seconds 1, .present "t" earlyRequest true), (seconds 60, .purge "t" fun _ => true),
          (seconds 60 + 500000000, .present "t" earlyRequest true)] s ∧ ¬s.accepted.Nodup := by
  refine ⟨⟨_, .cons ⟨by decide, rfl⟩
    (.cons ⟨by decide, rfl⟩ (.cons ⟨by decide, rfl⟩ (.nil _))), ?_⟩,
    ⟨_, .cons ⟨by decide, rfl⟩ (.cons ⟨by decide, rfl⟩ (.cons ⟨by decide, rfl⟩ (.nil _))), ?_⟩⟩
  · decide
  · decide

/-- An assertion that is good for the first minute. -/
def earlyAssertion : Message :=
  .clientAssertion "c" "assertion-1" { exp := some (.whole 60), nbf := none, iat := none }

/-- The assertion is presented twice, purged when its row expires, and presented once more. -/
def assertionRun : List (ℤ × Event) :=
  [(seconds 1, .present "t" earlyAssertion true), (seconds 30, .present "t" earlyAssertion true),
    (seconds 60, .purge "t" fun _ => true), (seconds 60, .present "t" earlyAssertion true)]

theorem assertion_accepted_once_early :
    fiveMinutes.replay.Path { now := 0, rows := [], accepted := [] } assertionRun
        { now := seconds 60, rows := [], accepted := [("t", earlyAssertion)] } ∧
      [("t", earlyAssertion)].count ("t", earlyAssertion) ≤ 1 := by
  have hp : fiveMinutes.replay.Path { now := 0, rows := [], accepted := [] } assertionRun
      { now := seconds 60, rows := [], accepted := [("t", earlyAssertion)] } :=
    .cons ⟨by decide, rfl⟩ (.cons ⟨by decide, rfl⟩ (.cons ⟨by decide, rfl⟩
      (.cons ⟨by decide, rfl⟩ (.nil _))))
  exact ⟨hp, assertion_accepted_once hp "t" "c" "assertion-1" _⟩

end AsteriusIdp.Replay
