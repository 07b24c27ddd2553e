import AsteriusIdp.Issuance.AccessToken
import AsteriusIdp.Store.Tables

/-!
# The status of an access token

Two endpoints judge an access token that was signed here: introspection, which reports whether it
is active, and UserInfo, which answers from the grant behind it.  Both look at the denylist, at
the cut-offs and at the grant.  Where the token does not name its grant, introspection has no row
to look at, and UserInfo takes the one live grant of the same subject and client.
-/

namespace AsteriusIdp.Store

open Fallible

/-- A cut-off withdraws the tokens issued up to its second. -/
def withdrawn (token : TokenClaims) (cutoff : Option ℤ) : Bool :=
  cutoff.any (token.iat ≤ unixTimestamp ·)

/-- The verifier's clock check. -/
def unexpired (token : TokenClaims) (now : ℤ) : Bool := unixTimestamp now < token.exp

/-- What a status check reads beside the tables. -/
structure Checks where
  now : ℤ
  /-- The task authority of a token, as the task tables have it. -/
  taskActive : TokenClaims → Bool
  /-- Whether a client fronts one of these audiences. -/
  introspects : String → Finset String → Bool
  /-- The request proves the key the token is bound to. -/
  senderConstrained : TokenClaims → Bool

/-- Introspection: is the token active, for this caller? -/
def describeAccessToken (checks : Checks) (tables : Tables) (caller : String)
    (token : TokenClaims) : Bool :=
  if unexpired token checks.now then
    let cutoff := tables.revokedBefore token.clientId token.grantId
    let grantStatus := (token.grantId.bind tables.grants.lookup).map (·.status checks.now)
    let live := checks.taskActive token && !decide (token.jti ∈ tables.denylist) &&
      !withdrawn token cutoff && (token.grantId.isNone || grantStatus = some .active)
    let allowed := caller = token.clientId || checks.introspects caller token.aud
    live && allowed
  else false

/-- Why UserInfo does not answer. -/
inductive Refused where
  | invalidToken
  | insufficientScope
  | server
  deriving DecidableEq

/-- The live grants of a subject and a client. -/
def candidates (tables : Tables) (token : TokenClaims) (now : ℤ) : List Grant :=
  (tables.grants.map (·.2)).filter fun grant =>
    grant.subject = some token.sub ∧ grant.client = token.clientId ∧ grant.status now = .active

/-- The grant behind a token that does not name one; several are never chosen between. -/
def resolvedWithoutTheClaim (tables : Tables) (token : TokenClaims) (now : ℤ) :
    Except Refused Grant :=
  match candidates tables token now with
  | [grant] => pure grant
  | _ => throw .invalidToken

/-- The grant the token names, or the one it resolves to. -/
def namedGrant (tables : Tables) (token : TokenClaims) (now : ℤ) : Except Refused Grant :=
  match token.grantId with
  | some id => okOr (tables.grants.lookup id) .invalidToken
  | none => do
    let grant ← resolvedWithoutTheClaim tables token now
    refuseIf (withdrawn token (tables.revokedBefore grant.client (some grant.id))) .invalidToken
    pure grant

/-- The grant behind the token, if it is still standing. -/
def liveGrant (tables : Tables) (token : TokenClaims) (now : ℤ) : Except Refused Grant := do
  let grant ← namedGrant tables token now
  refuseIf (grant.status now ≠ .active) .invalidToken
  refuseIf (token.clientId ≠ grant.client) .invalidToken
  pure grant

/-- UserInfo: the grant it answers from. -/
def userInfo (checks : Checks) (tables : Tables) (token : TokenClaims) : Except Refused Grant := do
  refuseIf (¬unexpired token checks.now) .invalidToken
  refuseIf (¬checks.senderConstrained token) .invalidToken
  refuseIf (¬checks.taskActive token) .invalidToken
  refuseIf (token.jti ∈ tables.denylist) .invalidToken
  refuseIf (withdrawn token (tables.revokedBefore token.clientId token.grantId)) .invalidToken
  refuseIf ("openid" ∉ token.scope) .insufficientScope
  let grant ← liveGrant tables token checks.now
  refuseIf (grant.subject ≠ some token.sub) .server
  refuseIf grant.user.isNone .server
  pure grant

/-- Both endpoints accept the token at some moment only if it has not expired, no cut-off of its
grant covers it, and its grant is active. -/
structure Accepted (tables : Tables) (token : TokenClaims) (now : ℤ) : Prop where
  unexpired : unixTimestamp now < token.exp
  uncut : withdrawn token (tables.revokedBefore token.clientId token.grantId) = false
  active : ∀ id, token.grantId = some id →
    ∃ grant, tables.grants.lookup id = some grant ∧ grant.status now = .active

variable {checks : Checks} {tables : Tables} {token : TokenClaims}

theorem accepted_of_describeAccessToken {caller : String}
    (h : describeAccessToken checks tables caller token) : Accepted tables token checks.now := by
  unfold describeAccessToken at h
  split_ifs at h with hexp
  simp only [Bool.and_eq_true, Bool.or_eq_true, Bool.not_eq_true'] at h
  obtain ⟨⟨⟨-, hcut⟩, hact⟩, -⟩ := h
  refine ⟨by simpa [Store.unexpired] using hexp, hcut, fun id hid => ?_⟩
  simpa [hid] using hact

theorem accepted_of_userInfo {grant : Grant} (h : userInfo checks tables token = .ok grant) :
    Accepted tables token checks.now := by
  simp only [userInfo, liveGrant, bind_ok, refuseIf_ok, pure_ok, not_not] at h
  obtain ⟨-, hexp, -, -, -, -, -, -, -, hcut, -, -, found, ⟨_, hnm, -, hact, -, -, rfl⟩, -⟩ := h
  refine ⟨by simpa [Store.unexpired] using hexp, by simpa using hcut, fun id hid => ?_⟩
  rw [namedGrant, hid] at hnm
  exact ⟨_, okOr_ok.1 hnm, hact⟩

end AsteriusIdp.Store
