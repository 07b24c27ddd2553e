import AsteriusIdp.Http.Signatures

/-!
# One-time messages and the clock

Three kinds of signed message are good for one use: a DPoP proof, a client assertion and a signed
HTTP request.  Each is checked against the clock by a function of its own, which returns the
instant until which the replay table has to remember the message.

* `dpopCheck` compares exact instants, and its upper bound is inclusive;
* `checkAssertion` compares exact instants, and its upper bound is exclusive;
* `verifyHttp` compares whole seconds, and its upper bound is inclusive.

`Message.expiry_eq` says that the instant returned does not depend on when the message is checked,
and `Message.passable_of_expiry` until when a message of each kind passes.
-/

namespace AsteriusIdp.Replay

open Fallible

/-- What a replay entry stands for. -/
inductive ReplayPurpose
  | clientAssertion
  | dpopProof
  | adminIdempotency
  | httpSignature
  deriving DecidableEq, Repr

/-! ### The clock of the shared JWT verifier -/

/-- A number of a claims object: an `i64`, or anything else with its truncation. -/
inductive NumericDate
  | whole (n : ℤ)
  | fractional (trunc : ℤ)
  deriving DecidableEq, Repr

/-- What `as_i64` reads. -/
def NumericDate.asI64 : NumericDate → Option ℤ
  | .whole n => some n
  | .fractional _ => none

/-- What `numeric_claim` reads: a fraction is discarded. -/
def numericClaim : Option NumericDate → Option ℤ
  | some (.whole n) => some n
  | some (.fractional n) => some n
  | none => none

/-- The claims about time. -/
structure Times where
  exp : Option NumericDate
  nbf : Option NumericDate
  iat : Option NumericDate
  deriving DecidableEq, Repr

/-- The part of a verification policy that is about time. -/
structure Policy where
  requireExpiry : Bool
  acceptExpired : Bool
  futureSkew : ℤ
  deriving Repr

/-- Why the shared verifier refuses the times of a token. -/
inductive VerificationError
  | missingClaim (claim : String)
  | expired (expiredAt : ℤ)
  | tooFarAhead (claim : String) (secondsAhead limit : ℤ)
  deriving DecidableEq, Repr

/-- How far ahead of the clock a claim may lie unless a caller says otherwise. -/
def defaultFutureSkew : ℤ := seconds 10

/-- The most that a caller may allow. -/
def maxFutureSkew : ℤ := seconds 60

/-- `Policy::new`, with the profile's defaults. -/
def Policy.new : Policy where
  requireExpiry := true
  acceptExpired := false
  futureSkew := defaultFutureSkew

/-- The policy for tokens that need not say when they expire. -/
def Policy.withoutExpiry (policy : Policy) : Policy := { policy with requireExpiry := false }

/-- The policy with a skew of the caller's, clamped to what is allowed. -/
def Policy.withFutureSkew (policy : Policy) (skew : ℤ) : Policy :=
  { policy with futureSkew := max (min skew maxFutureSkew) 0 }

/-- A duration as whole seconds, rounded towards zero. -/
def wholeSeconds (d : ℤ) : ℤ := d.tdiv 1000000000

/-- The difference of two `i64`, which wraps around in a release build. -/
def wrappingSub (a b : ℤ) : ℤ := (a - b).bmod (2 ^ 64)

/-- Refuse a claim that lies too far ahead of the clock. -/
def checkAhead (claim : String) (value : Option NumericDate) (unixNow skew : ℤ) :
    Except VerificationError Unit :=
  match numericClaim value with
  | some v =>
    let ahead := wrappingSub v unixNow
    refuseIf (skew < ahead) (.tooFarAhead claim ahead skew)
  | none => .ok ()

/-- The clock half of `check_claims`. -/
def checkClaims (claims : Times) (policy : Policy) (now : ℤ) : Except VerificationError Unit := do
  let unixNow := unixTimestamp now
  let skew := wholeSeconds (min policy.futureSkew maxFutureSkew)
  match numericClaim claims.exp with
  | some exp => refuseIf (exp ≤ unixNow ∧ policy.acceptExpired = false) (.expired exp)
  | none => refuseIf (policy.requireExpiry = true) (.missingClaim "exp")
  checkAhead "nbf" claims.nbf unixNow skew
  checkAhead "iat" claims.iat unixNow skew

/-! ### DPoP proofs -/

/-- Why a proof is refused, at its times or at its URI. -/
inductive DpopError
  | verification (error : VerificationError)
  | malformedClaim (claim : String)
  | tooOld (age limit : ℤ)
  | tooFarAhead (secondsAhead limit : ℤ)
  | uriMismatch
  deriving DecidableEq, Repr

/-- The oldest proof that any configuration accepts. -/
def maxMaxAge : ℤ := seconds 600

/-- How old a proof may be, and how far ahead of the clock. -/
structure Expectation where
  maxAge : ℤ
  futureSkew : ℤ
  deriving Repr

/-- The window an expectation allows, whatever it was configured with. -/
def Expectation.window (expectation : Expectation) : ℤ := max 0 (min expectation.maxAge maxMaxAge)

/-- The clock half of `dpop::check`; the value is `replay_expires_at`. -/
def dpopCheck (claims : Times) (expectation : Expectation) (now : ℤ) : Except DpopError ℤ := do
  let policy := Policy.new.withoutExpiry.withFutureSkew expectation.futureSkew
  (checkClaims claims policy now).mapError .verification
  let issuedAt ←
    okOr ((numericClaim claims.iat).bind checkedFromUnixTimestamp) (.malformedClaim "iat")
  let maxAge := expectation.window
  let skew := max 0 (min expectation.futureSkew maxFutureSkew)
  refuseIf (maxAge < now - issuedAt) (.tooOld (wholeSeconds (now - issuedAt)) (wholeSeconds maxAge))
  refuseIf (skew < issuedAt - now)
    (.tooFarAhead (wholeSeconds (issuedAt - now)) (wholeSeconds skew))
  return issuedAt + maxAge

theorem dpopCheck_ok {claims : Times} {expectation : Expectation} {now e : ℤ}
    (h : dpopCheck claims expectation now = .ok e) :
    now ≤ e ∧ ∃ iat, numericClaim claims.iat = some iat ∧ e = seconds iat + expectation.window := by
  simp only [dpopCheck, bind_ok, okOr_ok, refuseIf_ok, pure_ok, Option.bind_eq_some_iff] at h
  obtain ⟨-, -, t, ⟨iat, hiat, ht⟩, -, hold, -, -, rfl⟩ := h
  obtain rfl := checkedFromUnixTimestamp_eq_some ht
  exact ⟨by omega, iat, hiat, rfl⟩

/-! ### Client assertions -/

/-- Why a client assertion is refused at its times. -/
inductive ClientAuthError
  | assertionNotVerified
  | malformedClaim (claim : String)
  | expired
  | lifetimeTooLong
  deriving DecidableEq, Repr

/-- The clock half of a client assertion's checks: the verifier's, then `check_assertion`'s own.
The value is the assertion's `expires_at`. -/
def checkAssertion (claims : Times) (maxLifetime now : ℤ) : Except ClientAuthError ℤ := do
  (checkClaims claims Policy.new now).mapError fun _ => .assertionNotVerified
  let exp ← okOr (claims.exp.bind NumericDate.asI64) (.malformedClaim "exp")
  let expiresAt ← okOr (checkedFromUnixTimestamp exp) (.malformedClaim "exp")
  refuseIf (expiresAt ≤ now) .expired
  refuseIf (maxLifetime < expiresAt - now) .lifetimeTooLong
  return expiresAt

theorem checkAssertion_ok {claims : Times} {maxLifetime now e : ℤ}
    (h : checkAssertion claims maxLifetime now = .ok e) :
    now < e ∧ ∃ exp, numericClaim claims.exp = some exp ∧ e = seconds exp := by
  simp only [checkAssertion, bind_ok, okOr_ok, refuseIf_ok, pure_ok, Option.bind_eq_some_iff] at h
  obtain ⟨-, -, exp, ⟨date, hda, hexp⟩, t, ht, -, hlv, -, -, rfl⟩ := h
  obtain rfl := checkedFromUnixTimestamp_eq_some ht
  refine ⟨by omega, exp, ?_, rfl⟩
  rw [hda]
  cases date with
  | whole => exact hexp
  | fractional => cases hexp

/-! ### Signed HTTP requests -/

/-- What `Http.verify` asks of the parameters of a message.  The value is its `expires_at`. -/
def verifyHttp (parsed : Http.ParsedInput) (now : ℤ) : Except Http.HttpSignatureError ℤ := do
  Http.validateCommon [] parsed.keyid parsed.nonce parsed.created parsed.expires
  Http.checkTime parsed now
  okOr (checkedFromUnixTimestamp parsed.expires) .time

/-- The parameters of a verified message pass, until the instant that is returned with it. -/
theorem verifyHttp_of_verify {W : Http.Primitives} {components : List (String × String)}
    {componentList keyid : String} {body : Bytes} {fields : Http.SignedFields}
    {key : Http.VerifyingKey} {now : ℤ} {v : Http.VerifiedMessage}
    (h : Http.verify W components componentList body fields keyid key now = .ok v) :
    ∃ parsed, Http.parseInput fields.signatureInput componentList = .ok parsed ∧
      verifyHttp parsed now = .ok v.expiresAt := by
  simp only [Http.verify, bind_ok, okOr_ok, pure_ok, Unique.exists_iff] at h
  obtain ⟨-, -, -, parsed, hpar, hcom, -, htm, _, -, _, -, -, _, hexp, rfl⟩ := h
  refine ⟨parsed, hpar, ?_⟩
  simp only [verifyHttp, bind_ok, okOr_ok]
  refine ⟨(), ?_, (), htm, hexp⟩
  simp only [Http.validateCommon, bind_ok, refuseIf_ok, not_or] at hcom ⊢
  obtain ⟨_, ⟨-, hlf⟩, htex⟩ := hcom
  exact ⟨(), ⟨by simp, hlf⟩, htex⟩

theorem verifyHttp_ok {parsed : Http.ParsedInput} {now e : ℤ}
    (h : verifyHttp parsed now = .ok e) : now < e + seconds 1 ∧ e = seconds parsed.expires := by
  simp only [verifyHttp, Http.checkTime, bind_ok, okOr_ok, refuseIf_ok] at h
  obtain ⟨-, -, -, htm, ht⟩ := h
  obtain rfl := checkedFromUnixTimestamp_eq_some ht
  have hexp : unixTimestamp now ≤ parsed.expires := by omega
  rw [unixTimestamp_le_iff] at hexp
  unfold seconds at hexp ⊢
  omega

/-! ### Messages -/

/-- A signed message that is good for one use, as far as the clock and the replay table see it. -/
inductive Message
  | dpopProof (jkt jti : String) (claims : Times)
  | clientAssertion (clientId jti : String) (claims : Times)
  | httpRequest (peer : String) (parsed : Http.ParsedInput)
  deriving DecidableEq, Repr

/-- What the deployment lays down for messages of each kind. -/
structure Rules where
  dpop : Expectation
  maxLifetime : ℤ
  deriving Repr

namespace Message

/-- The purpose under which the message is remembered. -/
def purpose : Message → ReplayPurpose
  | .dpopProof .. => .dpopProof
  | .clientAssertion .. => .clientAssertion
  | .httpRequest .. => .httpSignature

/-- Who chose the identifier. -/
def subject : Message → String
  | .dpopProof jkt _ _ => jkt
  | .clientAssertion clientId _ _ => clientId
  | .httpRequest peer parsed => peer ++ ":" ++ parsed.keyid

/-- The identifier that makes the message single-use. -/
def jti : Message → String
  | .dpopProof _ jti _ => jti
  | .clientAssertion _ jti _ => jti
  | .httpRequest _ parsed => parsed.nonce

/-- Check a message against the clock: until when it has to be remembered, if it passes. -/
def expiry (rules : Rules) (now : ℤ) : Message → Option ℤ
  | .dpopProof _ _ claims => (dpopCheck claims rules.dpop now).toOption
  | .clientAssertion _ _ claims => (checkAssertion claims rules.maxLifetime now).toOption
  | .httpRequest _ parsed => (verifyHttp parsed now).toOption

end Message

/-- Until when a message can pass whose replay entry expires at `e`. -/
def Passable : ReplayPurpose → ℤ → ℤ → Prop
  | .dpopProof, e, now => now ≤ e
  | .clientAssertion, e, now => now < e
  | .httpSignature, e, now => now < e + seconds 1
  | .adminIdempotency, _, _ => False

theorem Passable.of_le {p : ReplayPurpose} {e now now' : ℤ} (h : Passable p e now')
    (hle : now ≤ now') : Passable p e now := by
  cases p <;> simp only [Passable] at h ⊢ <;> omega

private theorem toOption_eq_some {ε α : Type*} {x : Except ε α} {a : α} :
    x.toOption = some a ↔ x = .ok a := by
  cases x <;> simp [Except.toOption]

namespace Message

variable {rules : Rules} {m : Message} {now now' e e' : ℤ}

theorem passable_of_expiry (h : m.expiry rules now = some e) : Passable m.purpose e now := by
  cases m with
  | dpopProof => exact (dpopCheck_ok (toOption_eq_some.1 h)).1
  | clientAssertion => exact (checkAssertion_ok (toOption_eq_some.1 h)).1
  | httpRequest => exact (verifyHttp_ok (toOption_eq_some.1 h)).1

/-- A message is remembered until the same instant whenever it is checked. -/
theorem expiry_eq (h : m.expiry rules now = some e) (h' : m.expiry rules now' = some e') :
    e = e' := by
  cases m with
  | dpopProof =>
    obtain ⟨-, _, hiat, rfl⟩ := dpopCheck_ok (toOption_eq_some.1 h)
    obtain ⟨-, _, hiat', rfl⟩ := dpopCheck_ok (toOption_eq_some.1 h')
    rw [Option.some.inj (hiat.symm.trans hiat')]
  | clientAssertion =>
    obtain ⟨-, _, hexp, rfl⟩ := checkAssertion_ok (toOption_eq_some.1 h)
    obtain ⟨-, _, hexp', rfl⟩ := checkAssertion_ok (toOption_eq_some.1 h')
    rw [Option.some.inj (hexp.symm.trans hexp')]
  | httpRequest =>
    rw [(verifyHttp_ok (toOption_eq_some.1 h)).2, (verifyHttp_ok (toOption_eq_some.1 h')).2]

end Message

end AsteriusIdp.Replay
