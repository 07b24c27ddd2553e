import AsteriusIdp.Audit.Event
import AsteriusIdp.Lib.HashChain

/-!
# The chain of the audit trail

Each record carries the hash of the record before it and its own, which covers that hash and the
event.

* `verify` : the check of a run of records.
* `verify_ok` : it accepts exactly the chains.
* `chain_determined` : a trail of readable records is determined by where it ends.
-/

namespace AsteriusIdp.Audit

open HashChain

/-- A SHA-256 digest. -/
structure EventHash where
  bytes : Bytes
  length_bytes : bytes.length = 32
  deriving DecidableEq

/-- The hash every chain starts from. -/
def EventHash.genesis : EventHash := ⟨List.replicate 32 0, rfl⟩

/-- What verification finds. -/
inductive ChainError where
  /-- The content of a record is not what its hash covers. -/
  | altered (position : ℕ) (stored recomputed : EventHash)
  /-- A record does not follow the one before it. -/
  | broken (position : ℕ) (actual expected : EventHash)
  deriving DecidableEq

/-- A record with its hashes; the event is absent when the reader could not read it. -/
abbrev Link := HashChain.Link AuditEvent EventHash

section Hash

variable (sha : Bytes → EventHash)

/-- The hash of an event that follows another record. -/
def hash (previous : EventHash) (e : AuditEvent) : EventHash :=
  sha (previous.bytes ++ canonicalBytes e)

/-- The check of a link that stands where `expected` leads. -/
def checkLink (position : ℕ) (link : Link) (expected : EventHash) : Except ChainError Unit :=
  if link.previous ≠ expected then .error (.broken position link.previous expected)
  else match link.content with
    | some e =>
      if hash sha link.previous e ≠ link.current then
        .error (.altered position link.current (hash sha link.previous e))
      else .ok ()
    | none => .ok ()

/-- The loop of `verify`, from a position on. -/
def verifyFrom (position : ℕ) : List Link → EventHash → Except ChainError EventHash
  | [], expected => .ok expected
  | link :: links, expected =>
    match checkLink sha position link expected with
    | .error e => .error e
    | .ok () => verifyFrom (position + 1) links link.current

/-- The hash a run of records ends in, when each follows the one before it. -/
def verify (links : List Link) (start : EventHash) : Except ChainError EventHash :=
  verifyFrom sha 0 links start

end Hash

variable {sha : Bytes → EventHash} {position : ℕ}

theorem checkLink_ok {link : Link} {expected : EventHash} :
    checkLink sha position link expected = .ok () ↔
      link.previous = expected ∧ link.Sealed (hash sha) := by
  unfold checkLink Link.Sealed
  by_cases hpv : link.previous = expected
  · cases hct : link.content with
    | none => simp [hpv]
    | some => simp [hpv]
  · simp [hpv]

variable {links : List Link} {start tip : EventHash}

theorem verifyFrom_ok :
    verifyFrom sha position links start = .ok tip ↔ Chained (hash sha) start links tip := by
  induction links generalizing position start with
  | nil =>
    constructor
    · intro h
      cases h
      exact .nil _
    · intro h
      rw [h.eq_of_nil]
      rfl
  | cons link links ih =>
    constructor
    · intro h
      cases hchk : checkLink sha position link start with
      | error => simp [verifyFrom, hchk] at h
      | ok =>
        obtain ⟨rfl, hsld⟩ := checkLink_ok.1 hchk
        simp only [verifyFrom, hchk] at h
        exact .cons hsld (ih.1 h)
    · intro h
      cases h with
      | cons hsld hrs =>
        have hchk : checkLink sha position link link.previous = .ok () :=
          checkLink_ok.2 ⟨rfl, hsld⟩
        simp only [verifyFrom, hchk]
        exact ih.2 hrs

/-- **Verification accepts the chains.** -/
theorem verify_ok :
    verify sha links start = .ok tip ↔ Chained (hash sha) start links tip := verifyFrom_ok

/-- What is hashed for a readable record. -/
def message (link : Link) : Option Bytes :=
  link.content.map fun e => link.previous.bytes ++ canonicalBytes e

/-- The record was read, and its event is one a process can hold. -/
def Readable (link : Link) : Prop := ∃ e, link.content = some e ∧ e.Representable

theorem message_of_mem {link : Link} {e : AuditEvent} (he : e ∈ link.content) :
    link.previous.bytes ++ canonicalBytes e ∈ message link := by
  rw [Option.mem_def] at he ⊢
  rw [message, he, Option.map_some]

/-- **Tamper evidence.**  The encoding determines the event.  So two trails of readable records
that both verify from the start and end in one hash are the same, unless two of the messages
hashed for them collide or one hashes to the start. -/
theorem chain_determined :
    (∀ e e' : AuditEvent, e.Representable → e'.Representable →
      canonicalBytes e = canonicalBytes e' → e = e') ∧
    ∀ (sha : Bytes → EventHash) (l l' : List Link) (tip : EventHash),
      (∀ x ∈ l, Readable x) → (∀ y ∈ l', Readable y) →
      (∀ x ∈ l, ∀ y ∈ l', ∀ m ∈ message x, ∀ m' ∈ message y, sha m = sha m' → m = m') →
      (∀ x ∈ l ++ l', ∀ m ∈ message x, sha m ≠ .genesis) →
      verify sha l .genesis = .ok tip → verify sha l' .genesis = .ok tip → l = l' := by
  refine ⟨fun e e' he he' => canonicalBytes_inj he he', ?_⟩
  intro sha l l' tip hrd hrd' hco hgen h h'
  refine (verify_ok.1 h).unique (verify_ok.1 h') ?_ ?_ ?_ ?_ ?_
  · intro x hx
    obtain ⟨e, he, -⟩ := hrd x hx
    rw [he]
    rfl
  · intro y hy
    obtain ⟨e, he, -⟩ := hrd' y hy
    rw [he]
    rfl
  · intro x hx y hy e he e' he' hha
    have hme := hco x hx y hy _ (message_of_mem he) _ (message_of_mem he') hha
    -- the hash of the record before has a fixed length
    obtain ⟨hpv, hbyt⟩ := List.append_inj hme
      (x.previous.length_bytes.trans y.previous.length_bytes.symm)
    refine ⟨?_, ?_⟩
    · obtain ⟨_, ⟨_, _⟩, _⟩ := x
      obtain ⟨_, ⟨_, _⟩, _⟩ := y
      simpa using hpv
    · obtain ⟨_, he₀, hrep⟩ := hrd x hx
      obtain ⟨_, he₁, hrep'⟩ := hrd' y hy
      cases he₀.symm.trans he
      cases he₁.symm.trans he'
      exact canonicalBytes_inj hrep hrep' hbyt
  · exact fun x hx e he => hgen x (List.mem_append_left _ hx) _ (message_of_mem he)
  · exact fun y hy e he => hgen y (List.mem_append_right _ hy) _ (message_of_mem he)

/-- A digest for closed runs: the message as a number, cut to 32 bytes. -/
def digest (m : Bytes) : EventHash :=
  ⟨Framing.be 32 (m.foldl (fun n b => n * 257 + b.toNat) 1), Framing.length_be ..⟩

/-- A login, at an instant. -/
def login (user : String) (at_ : ℤ) : AuditEvent :=
  { tenant := "t", occurredAt := at_, eventType := ⟨"auth.login", by decide⟩, outcome := .success
    actor := .user user, actorChain := [], subject := none, client := none, session := none
    grant := none, requestId := none, detail := .empty }

/-- The records of events, one after the other. -/
def record (sha : Bytes → EventHash) : EventHash → List AuditEvent → List Link
  | _, [] => []
  | previous, e :: events =>
    ⟨some e, previous, hash sha previous e⟩ :: record sha (hash sha previous e) events

theorem chained_record (previous : EventHash) (events : List AuditEvent) :
    Chained (hash sha) previous (record sha previous events)
      (events.foldl (hash sha) previous) := by
  induction events generalizing previous with
  | nil => exact .nil previous
  | cons e events ih =>
    have hsld : Link.Sealed (hash sha) ⟨some e, previous, hash sha previous e⟩ := by
      intro _ he'
      rw [Option.some.inj he']
    exact .cons hsld (ih _)

theorem readable_record {previous : EventHash} {events : List AuditEvent}
    (h : ∀ e ∈ events, e.Representable) {x : Link} (hx : x ∈ record sha previous events) :
    Readable x := by
  induction events generalizing previous with
  | nil => exact absurd hx List.not_mem_nil
  | cons e events ih =>
    rcases List.mem_cons.1 hx with rfl | hrs
    · exact ⟨e, rfl, h e List.mem_cons_self⟩
    · exact ih (fun e' he' => h e' (List.mem_cons_of_mem _ he')) hrs

theorem representable_login {user : String} {at_ : ℤ} (hu : Short user)
    (hat : -2 ^ 127 ≤ at_ ∧ at_ < 2 ^ 127) : (login user at_).Representable where
  tenant := (by decide : Short "t")
  instant := hat
  actor := hu
  actorChain := ⟨fun _ h => absurd h List.not_mem_nil, (by decide : 0 < 2 ^ 64)⟩
  subject _ h := absurd h nofun
  client _ h := absurd h nofun
  session _ h := absurd h nofun
  grant _ h := absurd h nofun
  requestId _ h := absurd h nofun
  detail := ⟨fun _ h => absurd h List.not_mem_nil, (by decide : 0 < 2 ^ 64)⟩

/-- A trail whose first record was replaced, with every hash computed anew, ends elsewhere. -/
theorem chain_determined_edited : ∃ tip,
    verify digest (record digest .genesis [login "ann" 0, login "bob" 1]) .genesis = .ok tip ∧
    verify digest (record digest .genesis [login "eve" 0, login "bob" 1]) .genesis ≠ .ok tip := by
  have hann : ∀ e ∈ [login "ann" 0, login "bob" 1], e.Representable := by
    simpa using ⟨representable_login (by decide : Short "ann") (by decide),
      representable_login (by decide : Short "bob") (by decide)⟩
  have heve : ∀ e ∈ [login "eve" 0, login "bob" 1], e.Representable := by
    simpa using ⟨representable_login (by decide : Short "eve") (by decide),
      representable_login (by decide : Short "bob") (by decide)⟩
  refine ⟨_, verify_ok.2 (chained_record _ _), fun hed => ?_⟩
  have hsm := chain_determined.2 digest _ _ _ (fun _ => readable_record hann)
    (fun _ => readable_record heve) (by decide +kernel) (by decide +kernel)
    (verify_ok.2 (chained_record _ _)) hed
  exact absurd hsm (by decide +kernel)

end AsteriusIdp.Audit
