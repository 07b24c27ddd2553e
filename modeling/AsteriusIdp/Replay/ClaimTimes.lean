import AsteriusIdp.Json
import AsteriusIdp.Replay.Message

/-!
# The time claims of a verified token

The claims of a token are JSON, so a time claim is any number its signer chose: an integer of 64
bits is read as it is, every other number is truncated and saturated to one, and a value that is
not a number counts as absent.

* `checkClaims_exact` : the checks decide as exact arithmetic on the truncated numbers does, where
  the difference to the clock fits a signed 64-bit word.
-/

namespace AsteriusIdp.Replay

open Fallible Entries

/-- A cast to `i64`. -/
def saturate (n : ℤ) : ℤ := max (-2 ^ 63) (min (2 ^ 63 - 1) n)

/-- A JSON number without its fraction. -/
def truncated : Json → Option ℤ
  | .num (.posInt n) => some n.toNat
  | .num (.negInt n) => some n.1.toInt
  | .num (.float q) => some (q.1.num.tdiv q.1.den)
  | _ => none

/-- What a claim holds: an `i64`, or the cast of another number. -/
def numericDate (value : Json) : Option NumericDate :=
  match value.asI64 with
  | some n => some (.whole n)
  | none => (truncated value).map fun n => .fractional (saturate n)

/-- The times among claims. -/
def Times.ofClaims (claims : Object) : Times where
  exp := (Entries.lookup claims "exp").bind numericDate
  nbf := (Entries.lookup claims "nbf").bind numericDate
  iat := (Entries.lookup claims "iat").bind numericDate

/-- The exact value of a time claim. -/
def dateOf (claims : Object) (name : String) : Option ℤ :=
  (Entries.lookup claims name).bind truncated

variable {claims : Object} {policy : Policy} {now : ℤ}

theorem saturate_le {n b : ℤ} (hlow : -2 ^ 63 ≤ b) (hhi : b < 2 ^ 63 - 1) :
    saturate n ≤ b ↔ n ≤ b := by
  unfold saturate
  omega

/-- Reading a claim never changes on which side of a bound it lies. -/
theorem numericClaim_le {name : String} {b : ℤ} (hlow : -2 ^ 63 ≤ b) (hhi : b < 2 ^ 63 - 1) :
    ∃ read : ℤ → ℤ,
      numericClaim ((lookup claims name).bind numericDate) = (dateOf claims name).map read ∧
      ∀ n, read n ≤ b ↔ n ≤ b := by
  unfold dateOf
  cases lookup claims name with
  | none => exact ⟨id, rfl, fun _ => Iff.rfl⟩
  | some value =>
    simp only [Option.bind_some, numericDate]
    cases hwho : value.asI64 with
    | none =>
      refine ⟨saturate, ?_, fun n => saturate_le hlow hhi⟩
      cases truncated value <;> rfl
    | some =>
      refine ⟨id, ?_, fun _ => Iff.rfl⟩
      rcases value with _ | _ | (n | n | q) | _ | _ | _ <;> simp only [Json.asI64] at hwho
      all_goals grind [truncated, numericClaim]

theorem checkAhead_ok {claim : String} {value : Option NumericDate} {unixNow skew : ℤ}
    (hft : ∀ v ∈ numericClaim value, -2 ^ 63 ≤ v - unixNow ∧ v - unixNow < 2 ^ 63) :
    checkAhead claim value unixNow skew = .ok () ↔
      ∀ v ∈ numericClaim value, v ≤ unixNow + skew := by
  unfold checkAhead
  cases hrd : numericClaim value with
  | none => simp
  | some v =>
    have hv := hft v hrd
    have hsub : wrappingSub v unixNow = v - unixNow := Int.bmod_eq_of_le (by omega) (by omega)
    simp only [hsub, refuseIf_ok, Option.mem_def, Option.some.injEq, forall_eq']
    omega

/-- The skew a policy permits, in seconds. -/
def Policy.skew (policy : Policy) : ℤ := wholeSeconds (min policy.futureSkew maxFutureSkew)

theorem Policy.skew_mem (hsk : 0 ≤ policy.futureSkew) : 0 ≤ policy.skew ∧ policy.skew ≤ 60 := by
  have hmin : 0 ≤ min policy.futureSkew maxFutureSkew := le_min hsk (by decide)
  rw [Policy.skew, wholeSeconds, Int.tdiv_eq_ediv_of_nonneg hmin]
  unfold maxFutureSkew seconds at *
  omega

/-- **The time checks are exact.**  A token passes if and only if it has an expiry when one is
required, the expiry lies after the clock unless the policy accepts expired tokens, and neither
`nbf` nor `iat` is further ahead than the permitted skew, where the differences that are compared
with the skew fit a signed 64-bit word. -/
theorem checkClaims_exact (hnow : (checkedFromUnixTimestamp (unixTimestamp now)).isSome)
    (hskew : 0 ≤ policy.futureSkew)
    (hfits : ∀ claim ∈ [(Times.ofClaims claims).nbf, (Times.ofClaims claims).iat],
      ∀ v ∈ numericClaim claim,
        -2 ^ 63 ≤ v - unixTimestamp now ∧ v - unixTimestamp now < 2 ^ 63) :
    checkClaims (Times.ofClaims claims) policy now = .ok () ↔
      (policy.requireExpiry → (dateOf claims "exp").isSome) ∧
      (∀ exp ∈ dateOf claims "exp", policy.acceptExpired ∨ unixTimestamp now < exp) ∧
      ∀ name ∈ ["nbf", "iat"], ∀ v ∈ dateOf claims name, v - unixTimestamp now ≤ policy.skew := by
  have hclk : -377705116800 ≤ unixTimestamp now ∧ unixTimestamp now ≤ 253402300799 := by
    unfold checkedFromUnixTimestamp at hnow
    split_ifs at hnow with hran
    · exact hran
    · cases hnow
  obtain ⟨hz, hsix⟩ := Policy.skew_mem hskew
  have hahe : ∀ name ∈ ["nbf", "iat"],
      checkAhead name ((lookup claims name).bind numericDate) (unixTimestamp now)
        policy.skew = .ok () ↔ ∀ v ∈ dateOf claims name, v - unixTimestamp now ≤ policy.skew := by
    intro name hnm
    obtain ⟨read, hrd, hle⟩ := @numericClaim_le claims name (unixTimestamp now + policy.skew)
      (by omega) (by omega)
    rw [checkAhead_ok, hrd]
    · cases dateOf claims name with
      | none => simp
      | some =>
        simp only [Option.map_some, Option.mem_def, Option.some.injEq, forall_eq', hle]
        omega
    · simp only [List.mem_cons, List.not_mem_nil, or_false] at hnm
      rcases hnm with rfl | rfl
      · exact hfits _ (by simp [Times.ofClaims])
      · exact hfits _ (by simp [Times.ofClaims])
  obtain ⟨read, hrd, hle⟩ := @numericClaim_le claims "exp" (unixTimestamp now) (by omega)
    (by omega)
  rw [List.forall_mem_cons, List.forall_mem_singleton, ← hahe "nbf" (by simp),
    ← hahe "iat" (by simp)]
  simp only [checkClaims, Times.ofClaims, hrd, Policy.skew]
  cases dateOf claims "exp" with
  | none => simp [Unique.exists_iff]
  | some =>
    simp only [Option.map_some, bind_ok, refuseIf_ok, hle]
    grind

/-- A token whose `iat` is written as a float, checked a second after it was issued. -/
theorem checkClaims_exact_float :
    checkClaims (Times.ofClaims [("exp", .num (.posInt 1000000300)),
      ("iat", .num (.float ⟨1000000000, by decide +kernel⟩))]) .new
        (seconds 1000000001) = .ok () := by
  refine (checkClaims_exact (by decide) (by decide) ?_).2 ?_
  · decide
  · decide

/-- A policy that accepts expired tokens accepts one whose expiry has passed. -/
theorem checkClaims_expired :
    checkClaims (Times.ofClaims [("exp", .num (.posInt 0))])
      { Policy.new with acceptExpired := true } (seconds 1) = .ok () ∧
      dateOf [("exp", .num (.posInt 0))] "exp" = some 0 ∧ ¬unixTimestamp (seconds 1) < 0 := by
  decide

end AsteriusIdp.Replay
