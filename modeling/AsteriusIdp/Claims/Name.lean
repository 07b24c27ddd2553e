import AsteriusIdp.Json.Serde
import AsteriusIdp.Lib.Fallible
import AsteriusIdp.Lib.Text

/-!
# Claim names

A claim about a user is named by a text, with an optional language tag after `#`.  Which names a
record may hold is decided by `ClaimName.check`, which names may be released by
`ReleasableClaim.parse`: a claim that says something about the exchange (who issued the token,
for whom, what it authorises) has no value of the type `ReleasableClaim`.

* `ClaimName.base_not_mem_serverIssued` : a stored claim is never one the server issues.
* `ReleasableClaim.parse_eq_some` : a name is parsed to the claim that has this name.
-/

namespace AsteriusIdp

open Fallible

/-! ### Language tags -/

/-- A name without its language tag. -/
def baseName (raw : String) : String := String.ofList (raw.toList.takeWhile (· ≠ '#'))

/-- The text after the first `#`, if there is one. -/
def languageTag (raw : String) : Option String :=
  match raw.toList.dropWhile (· ≠ '#') with
  | [] => none
  | _ :: tag => some (String.ofList tag)

/-- One to eight characters of the kind `p`. -/
def isSubtag (p : Char → Bool) (subtag : String) : Bool :=
  1 ≤ subtag.toList.length && subtag.toList.length ≤ 8 && subtag.toList.all p

/-- The basic shape of a BCP 47 tag. -/
def isLanguageTag (tag : String) : Bool :=
  match Text.split '-' tag with
  | [] => false
  | primary :: subtags =>
    isSubtag Char.isAlpha primary && subtags.all (isSubtag Char.isAlphanum)

/-! ### Names a user record may hold -/

/-- Why a claim name is refused. -/
inductive ClaimError where
  | nameLength (found : ℕ)
  | nameCharacter (code : ℕ)
  | languageTag
  | reserved (name : String)
  | reservedMemberName (name : String)
  deriving DecidableEq

/-- The claims the server issues about the exchange. -/
def serverIssued : List String :=
  ["acr", "act", "amr", "at_hash", "aud", "auth_time", "azp", "c_hash", "client_id", "cnf",
    "ds_hash", "exp", "iat", "iss", "jti", "may_act", "nbf", "nonce", "s_hash", "scope",
    "session_expiry", "sid", "sub", "verified_claims"]

/-- The claims a user has in a column. -/
def heldInAColumn : List String := ["email", "email_verified", "updated_at"]

/-- A control character of Unicode. -/
def isControl (c : Char) : Bool := c.toNat ≤ 0x1F || (0x7F ≤ c.toNat && c.toNat ≤ 0x9F)

/-- A character that reorders the text around it. -/
def isBidirectionalFormat (c : Char) : Bool :=
  let n := c.toNat
  (0x200E ≤ n && n ≤ 0x200F) || (0x202A ≤ n && n ≤ 0x202E) || (0x2066 ≤ n && n ≤ 0x2069)

namespace ClaimName

/-- The longest name, tag included. -/
def maxLen : ℕ := 128

/-- The rules a claim name has to meet, in the order they are applied. -/
def check (raw : String) : Except ClaimError Unit := do
  let length := raw.toList.length
  refuseIf (length = 0 ∨ maxLen < length) (.nameLength length)
  refuseSome
    (raw.toList.find? fun c => isControl c || Text.isWhitespace c || isBidirectionalFormat c)
    fun bad => .nameCharacter bad.toNat
  let base := baseName raw
  refuseIf (base = "") (.nameLength 0)
  refuseSome (serdeJsonSentinel base) .reservedMemberName
  refuseIf ((AsteriusIdp.languageTag raw).any fun tag => !isLanguageTag tag) .languageTag
  refuseSome ((serverIssued ++ heldInAColumn).find? (· = base)) .reserved

end ClaimName

/-- A claim name that passed the rules. -/
structure ClaimName where
  raw : String
  accepted : ClaimName.check raw = .ok ()

namespace ClaimName

theorem raw_injective : Function.Injective raw := by
  rintro ⟨_, _⟩ ⟨_, _⟩ h
  cases h
  rfl

instance : LinearOrder ClaimName := LinearOrder.lift' raw raw_injective

/-- A name that passes the checks. -/
def parse (raw : String) : Except ClaimError ClaimName :=
  match h : check raw with
  | .ok () => .ok ⟨raw, h⟩
  | .error e => .error e

theorem parse_ok {raw : String} {name : ClaimName} : parse raw = .ok name ↔ name.raw = raw := by
  unfold parse
  constructor
  · intro h
    split at h
    · cases h
      rfl
    · cases h
  · rintro rfl
    split
    · rfl
    · next e h => rw [name.accepted] at h; cases h

/-- A stored claim has no reserved member name. -/
theorem check_ne_ok_of_sentinel {raw : String} (h : isSerdeJsonSentinel raw = true) :
    check raw ≠ .ok () := by
  rw [isSerdeJsonSentinel_iff] at h
  revert raw
  decide

theorem isSerdeJsonSentinel_raw (name : ClaimName) : isSerdeJsonSentinel name.raw = false := by
  by_contra h
  exact check_ne_ok_of_sentinel (Bool.not_eq_false _ ▸ h) name.accepted

/-- The name without its language. -/
def base (name : ClaimName) : String := baseName name.raw

/-- A stored claim is neither one the server issues nor one kept in a column. -/
theorem base_not_mem_reserved (name : ClaimName) : name.base ∉ serverIssued ++ heldInAColumn := by
  intro hmem
  have h := name.accepted
  simp only [check, bind_ok, refuseSome_ok] at h
  obtain ⟨_, -, _, -, _, -, _, -, _, -, hfr⟩ := h
  simpa [base] using List.find?_eq_none.1 hfr _ hmem

theorem base_not_mem_serverIssued (name : ClaimName) : name.base ∉ serverIssued :=
  fun h => name.base_not_mem_reserved (List.mem_append_left _ h)

end ClaimName

/-! ### Names a client may be given -/

/-- A claim that says which of the tenant's roles a user holds. -/
inductive RoleClaim where
  | roles
  | resourceAccess
  deriving DecidableEq

namespace RoleClaim

/-- The role claims. -/
def all : List RoleClaim := [roles, resourceAccess]

/-- Its wire name. -/
def asStr : RoleClaim → String
  | roles => "roles"
  | resourceAccess => "resource_access"

/-- The claim of a name. -/
def parse (raw : String) : Option RoleClaim := all.find? (·.asStr = raw)

instance : Fintype RoleClaim := ⟨⟨all, by decide⟩, by rintro (_ | _) <;> decide⟩

theorem asStr_injective : Function.Injective asStr := by
  intro a b
  revert a b
  decide

theorem parse_eq_some {raw : String} {claim : RoleClaim} :
    parse raw = some claim ↔ claim.asStr = raw := by
  constructor
  · intro h
    simpa using List.find?_some h
  · rintro rfl
    revert claim
    decide

end RoleClaim

/-- A claim kept in a column of the user. -/
inductive UserAttribute where
  | email
  | emailVerified
  | updatedAt
  deriving DecidableEq

namespace UserAttribute

/-- The attributes. -/
def all : List UserAttribute := [email, emailVerified, updatedAt]

/-- Its wire name. -/
def asStr : UserAttribute → String
  | email => "email"
  | emailVerified => "email_verified"
  | updatedAt => "updated_at"

/-- The attribute of a name. -/
def parse (raw : String) : Option UserAttribute := all.find? (·.asStr = raw)

theorem parse_eq_some {raw : String} {attr : UserAttribute} :
    parse raw = some attr ↔ attr.asStr = raw := by
  constructor
  · intro h
    simpa using List.find?_some h
  · rintro rfl
    cases attr <;> decide

/-- The position in the declaration, by which attributes are ordered. -/
def index : UserAttribute → ℕ
  | email => 0
  | emailVerified => 1
  | updatedAt => 2

end UserAttribute

/-- The claims that say what a token authorises. -/
def authorisationClaims : List String :=
  ["act", "authorization_details", "client_id", "cnf", "grant_id", "scope"]

/-- A claim that may be released to a client. -/
inductive ReleasableClaim where
  /-- Projected from a column of the user. -/
  | userAttribute (attr : UserAttribute)
  /-- Read from the user's claim set. -/
  | stored (name : ClaimName)

namespace ReleasableClaim

/-- The name the claim is delivered under. -/
def asStr : ReleasableClaim → String
  | userAttribute a => a.asStr
  | stored name => name.raw

/-- A name that is computed by the server whatever a user record says. -/
def isComputed (raw : String) : Bool :=
  isSerdeJsonSentinel raw || (RoleClaim.parse (baseName raw)).isSome ||
    authorisationClaims.contains (baseName raw) ||
    ["_claim_names", "_claim_sources"].contains (baseName raw)

/-- Read a requested name; a name that may not be released reads as nothing. -/
def parse (raw : String) : Option ReleasableClaim :=
  if isComputed raw then none
  else
    match UserAttribute.parse raw with
    | some a => some (userAttribute a)
    | none => (ClaimName.parse raw).toOption.map stored

theorem asStr_userAttribute_ne_stored (a : UserAttribute) (name : ClaimName) :
    (userAttribute a).asStr ≠ (stored name).asStr := by
  intro h
  refine name.base_not_mem_reserved (List.mem_append_right _ ?_)
  rw [ClaimName.base, show name.raw = a.asStr from h.symm]
  cases a <;> decide

theorem asStr_injective : Function.Injective asStr := by
  intro c d h
  cases c with
  | userAttribute a =>
    cases d with
    | userAttribute b =>
      have := UserAttribute.parse_eq_some.2 (show a.asStr = b.asStr from h)
      rw [UserAttribute.parse_eq_some.2 rfl] at this
      rw [Option.some.inj this]
    | stored name => exact absurd h (asStr_userAttribute_ne_stored a name)
  | stored name =>
    cases d with
    | userAttribute b => exact absurd h.symm (asStr_userAttribute_ne_stored b name)
    | stored => rw [ClaimName.raw_injective h]

/-- Claims are ordered with the columns first. -/
def key : ReleasableClaim → ℕ ×ₗ String
  | userAttribute a => toLex (a.index, "")
  | stored name => toLex (3, name.raw)

theorem key_injective : Function.Injective key := by
  rintro (a | ⟨name, _⟩) (b | ⟨name', _⟩) h
  · cases a <;> cases b <;> first | rfl | exact absurd h (by decide)
  · cases a <;> exact absurd (congrArg (fun k => (ofLex k).1) h) (by decide : ¬ (_ : ℕ) = 3)
  · cases b <;> exact absurd (congrArg (fun k => (ofLex k).1) h) (by decide : ¬ 3 = (_ : ℕ))
  · have : name = name' := congrArg (fun k => (ofLex k).2) h
    subst this
    rfl

instance : LinearOrder ReleasableClaim := LinearOrder.lift' key key_injective

/-- **What a name is read as**: the claim of this name, when it is not one the server computes. -/
theorem parse_eq_some {raw : String} {claim : ReleasableClaim} :
    parse raw = some claim ↔ claim.asStr = raw ∧ isComputed raw = false := by
  unfold parse
  cases hcmp : isComputed raw with
  | true => simp
  | false =>
    simp only [Bool.false_eq_true, if_false, and_true]
    constructor
    · intro h
      cases hat : UserAttribute.parse raw with
      | some =>
        rw [hat] at h
        cases h
        exact UserAttribute.parse_eq_some.1 hat
      | none =>
        rw [hat] at h
        obtain ⟨name, hnm, rfl⟩ := Option.map_eq_some_iff.1 h
        cases hpar : ClaimName.parse raw with
        | error => rw [hpar] at hnm; cases hnm
        | ok =>
          rw [hpar] at hnm
          cases hnm
          exact ClaimName.parse_ok.1 hpar
    · rintro rfl
      cases claim with
      | userAttribute a =>
        have hat : UserAttribute.parse (userAttribute a).asStr = some a :=
          UserAttribute.parse_eq_some.2 rfl
        rw [hat]
      | stored name =>
        have hat : UserAttribute.parse (stored name).asStr = none := by
          by_contra hne
          obtain ⟨a, ha⟩ := Option.ne_none_iff_exists'.1 hne
          exact asStr_userAttribute_ne_stored a name (UserAttribute.parse_eq_some.1 ha)
        have hnm : ClaimName.parse (stored name).asStr = .ok name :=
          ClaimName.parse_ok.2 rfl
        rw [hat, hnm]
        rfl

theorem isSerdeJsonSentinel_asStr (claim : ReleasableClaim) :
    isSerdeJsonSentinel claim.asStr = false := by
  cases claim with
  | userAttribute a => cases a <;> decide
  | stored name => exact name.isSerdeJsonSentinel_raw

theorem base_not_mem_serverIssued (claim : ReleasableClaim) :
    baseName claim.asStr ∉ serverIssued := by
  cases claim with
  | userAttribute a => cases a <;> decide
  | stored name => exact name.base_not_mem_serverIssued

theorem asStr_ne_of_mem_serverIssued (claim : ReleasableClaim) {raw : String}
    (hbs : baseName raw = raw) (h : raw ∈ serverIssued) : claim.asStr ≠ raw := by
  rintro rfl
  exact claim.base_not_mem_serverIssued (hbs.symm ▸ h)

end ReleasableClaim

/-! ### Names of verified claims -/

namespace VerifiedClaimName

/-- The names a verified claim may have: stored ones and the address. -/
def check (raw : String) : Bool :=
  (raw = "email" ∨ raw = "email_verified" ∨ ClaimName.check raw = .ok ()) ∧
    raw ≠ "verified_claims"

end VerifiedClaimName

/-- The name of an attribute that somebody verified. -/
structure VerifiedClaimName where
  raw : String
  accepted : VerifiedClaimName.check raw = true

namespace VerifiedClaimName

theorem raw_injective : Function.Injective raw := by
  rintro ⟨_, _⟩ ⟨_, _⟩ h
  cases h
  rfl

instance : LinearOrder VerifiedClaimName := LinearOrder.lift' raw raw_injective

/-- A name that passes the check. -/
def parse (raw : String) : Option VerifiedClaimName :=
  if h : check raw then some ⟨raw, h⟩ else none

@[simp] theorem parse_eq_some {raw : String} {name : VerifiedClaimName} :
    parse raw = some name ↔ name.raw = raw := by
  unfold parse
  constructor
  · intro h
    split_ifs at h
    cases h
    rfl
  · rintro rfl
    simp [name.accepted]

theorem isSerdeJsonSentinel_raw (name : VerifiedClaimName) :
    isSerdeJsonSentinel name.raw = false := by
  by_contra h
  rw [Bool.not_eq_false] at h
  have hacc := name.accepted
  simp only [check, ClaimName.check_ne_ok_of_sentinel h, or_false, decide_eq_true_eq]
    at hacc
  rcases hacc.1 with hema | hema
  all_goals
    rw [hema] at h
    revert h
    decide

end VerifiedClaimName

end AsteriusIdp
