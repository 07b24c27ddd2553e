import AsteriusIdp.Authorize.Requirements
import AsteriusIdp.Consent.Surface
import AsteriusIdp.Domain.Grant

/-!
# Consent memory

A user who agreed to something before is not asked again.  The memory is the grants that still
stand: `Remembered.ofClient` folds what the live grants of one client and user record, and
`Remembered.covers` subtracts it from what is asked for.

What the fold holds is what some live grant records (`Remembered.holds_ofClient`), so neither the
order of the grants nor any other grant matters, and what is left to ask about is what is asked for
and does not stand (`Remembered.covers_spec`).  A consent to `offline_access` stands for a limited
time only.
-/

namespace AsteriusIdp

open Fallible Json Entries

/-- The scope that asks for a refresh token. -/
def offlineAccess : String := "offline_access"

/-- What the tenant does with a consent it could remember; durations are nanoseconds. -/
structure MemoryPolicy where
  /-- Show the screen every time. -/
  alwaysAsk : Bool
  /-- How long a consent to `offline_access` stands. -/
  offlineAccessMemory : ℤ

/-- Ninety days. -/
def defaultOfflineAccessMemory : ℤ := 90 * 86400 * 10 ^ 9

/-- Remember. -/
def MemoryPolicy.default : MemoryPolicy :=
  { alwaysAsk := false, offlineAccessMemory := defaultOfflineAccessMemory }

/-- The things a user can be asked about. -/
inductive AskedKind where
  | scope
  | claim
  | authorizationDetail
  | resource
  deriving DecidableEq

/-- What one authorization asks the user to agree to, or what was agreed to. -/
structure Asked where
  scopes : Finset String
  claims : Finset String
  /-- The elements as canonical texts. -/
  authorizationDetails : Finset String
  resources : Finset String
  deriving DecidableEq

namespace Asked

/-- Nothing. -/
def default : Asked :=
  { scopes := ∅, claims := ∅, authorizationDetails := ∅, resources := ∅ }

/-- What is asked for of a kind. -/
def items (asked : Asked) : AskedKind → Finset String
  | .scope => asked.scopes
  | .claim => asked.claims
  | .authorizationDetail => asked.authorizationDetails
  | .resource => asked.resources

/-- Nothing is asked for. -/
def isEmpty (asked : Asked) : Bool :=
  asked.scopes = ∅ ∧ asked.claims = ∅ ∧ asked.authorizationDetails = ∅ ∧ asked.resources = ∅

/-- What is asked for and not in `other`. -/
def minus (asked other : Asked) : Asked :=
  { scopes := asked.scopes \ other.scopes
    claims := asked.claims \ other.claims
    authorizationDetails := asked.authorizationDetails \ other.authorizationDetails
    resources := asked.resources \ other.resources }

/-- Both together. -/
def absorb (asked other : Asked) : Asked :=
  { scopes := asked.scopes ∪ other.scopes
    claims := asked.claims ∪ other.claims
    authorizationDetails := asked.authorizationDetails ∪ other.authorizationDetails
    resources := asked.resources ∪ other.resources }

@[simp] theorem items_minus (asked other : Asked) (kind : AskedKind) :
    (asked.minus other).items kind = asked.items kind \ other.items kind := by
  cases kind <;> rfl

@[simp] theorem items_absorb (asked other : Asked) (kind : AskedKind) :
    (asked.absorb other).items kind = asked.items kind ∪ other.items kind := by
  cases kind <;> rfl

@[simp] theorem items_default (kind : AskedKind) : default.items kind = ∅ := by cases kind <;> rfl

theorem isEmpty_iff {asked : Asked} : asked.isEmpty = true ↔ ∀ kind, asked.items kind = ∅ := by
  simp only [isEmpty, decide_eq_true_eq]
  constructor
  · rintro ⟨hscs, hcls, hds, hrs⟩ (_ | _ | _ | _)
    exacts [hscs, hcls, hds, hrs]
  · intro h
    exact ⟨h .scope, h .claim, h .authorizationDetail, h .resource⟩

theorem ext_items {asked other : Asked} (h : ∀ kind, asked.items kind = other.items kind) :
    asked = other := by
  rw [Asked.mk.injEq]
  exact ⟨h .scope, h .claim, h .authorizationDetail, h .resource⟩

/-- What a stored authorization request asks for. -/
def fromParameters (serde : Serde) (parameters : Json) : Asked :=
  { scopes := (Requirements.strings parameters "scopes").toFinset
    claims :=
      match (parameters.member "claims").map (ClaimsRequest.fromJson serde) with
      | some (.ok request) => claimsSurface serde request
      | _ => ∅
    authorizationDetails :=
      (((parameters.member "authorization_details").bind asArray).elim [] fun elements =>
        elements.map serde.toString).toFinset
    resources := (Requirements.strings parameters "resources").toFinset }

theorem toFinset_strings_setJson {parameters : Object} {name : String} {texts : Finset String}
    (h : lookup parameters name = some (setJson texts)) :
    (Requirements.strings (.obj parameters) name).toFinset = texts := by
  rw [Requirements.strings, member_obj, h, setJson, Option.bind_some, asArray, Option.elim_some,
    filterMap_asStr_map]
  exact Finset.sort_toFinset _ _

/-- What is read from the stored parameters of a validated request is what it asks for, except
that a claims document beyond the bounds of its reader asks for nothing. -/
theorem fromParameters_stored {serde : Serde} {policy : AuthorizationPolicy}
    {target : RequestTarget} {params : Parameters} {request : AuthorizationRequest}
    {identityOnly : Bool} {signedResponseAlg hintedSubject dpopJkt : Option String}
    {parameters : Object} (hvalid : validate serde policy target params = .ok request)
    (hstored : storedParameters identityOnly request signedResponseAlg hintedSubject dpopJkt =
      .ok parameters) :
    fromParameters serde (.obj parameters) =
      { scopes := request.scopes
        claims :=
          if ClaimsRequest.fits serde (storedClaims identityOnly request) then
            claimsSurface serde (storedClaims identityOnly request)
          else ∅
        authorizationDetails := (request.authorizationDetails.map serde.toString).toFinset
        resources := request.resources } := by
  have hlk := lookup_storedParameters (parseClaims_sound (validate_claims hvalid)).1 hstored
  obtain ⟨hscs, hrs, hds⟩ :
      lookup parameters "scopes" = some (setJson request.scopes) ∧
      lookup parameters "resources" = some (setJson request.resources) ∧
      lookup parameters "authorization_details" = some (.arr request.authorizationDetails) := by
    simp [hlk, serialisedMembers, lookup_cons]
  have hcls := (hlk "claims").trans (if_pos rfl)
  rw [fromParameters, toFinset_strings_setJson hscs, toFinset_strings_setJson hrs]
  simp only [member_obj, hds, hcls]
  rcases fromJson_storedClaims serde (storedClaims_sound hvalid identityOnly) with
    ⟨hft, hrd⟩ | ⟨hft, e, hrd⟩ <;> simp [hft, hrd, asArray]

/-- Asks to make a payment at an API and for the email address. -/
def paymentTarget : RequestTarget :=
  { Requirements.readerTarget with
    scopes := {"openid", "pay"}, resources := {"https://api.example/"}
    authorizationDetails := [.obj [("type", .str "payment")]] }

/-- The request with these. -/
def paymentRequest : AuthorizationRequest :=
  { paymentTarget with
    prompts := ∅, maxAge := none, acrValues := [], claims := ClaimsRequest.emailRequest }

theorem fromParameters_stored_payment :
    fromParameters .compact (.obj (serialise paymentRequest none none none)) =
      { scopes := {"openid", "pay"}, claims := {"id_token:email"}
        authorizationDetails := {"\x7b\"type\":\"payment\"\x7d"}
        resources := {"https://api.example/"} } := by
  have hvl : validate .compact Requirements.readerPolicy paymentTarget
      { prompt := none, maxAge := none, acrValues := none
        claims := some (Serde.compact.toString (.obj ClaimsRequest.emailRoot)) } =
      .ok paymentRequest := by decide +kernel
  have hsto : storedParameters false paymentRequest none none none = .ok _ := rfl
  rw [fromParameters_stored hvl hsto]
  decide +kernel

end Asked

/-- What a grant records. -/
def ConsentGrant.recorded (serde : Serde) (grant : ConsentGrant) : Asked :=
  { scopes := grant.scopes
    claims :=
      match ClaimsRequest.fromJson serde grant.claims with
      | .ok request => claimsSurface serde request
      | .error _ => ∅
    authorizationDetails := (grant.authorizationDetails.map serde.toString).toFinset
    resources := grant.resources }

/-! ### The memory -/

/-- What one user has agreed to for one client. -/
structure Remembered where
  /-- How many grants were folded in. -/
  grants : ℕ
  /-- What they cover, without `offline_access`. -/
  covered : Asked
  /-- When `offline_access` was last agreed to. -/
  offlineAccessAt : Option ℤ
  deriving DecidableEq

/-- The answer of the memory. -/
inductive Coverage where
  | covered
  | delta (asked : Asked)
  deriving DecidableEq

namespace Remembered

/-- Nothing yet. -/
def default : Remembered := { grants := 0, covered := .default, offlineAccessAt := none }

/-- A grant of the client and the user that still stands. -/
def isLive (client subject : String) (now : ℤ) (grant : ConsentGrant) : Bool :=
  grant.client = client ∧ grant.subject = some subject ∧ grant.mayIssue now

/-- Fold in one grant. -/
def remember (serde : Serde) (client subject : String) (now : ℤ) (remembered : Remembered)
    (grant : ConsentGrant) : Remembered :=
  if isLive client subject now grant then
    let recorded := grant.recorded serde
    { grants := remembered.grants + 1
      covered := remembered.covered.absorb
        { recorded with scopes := recorded.scopes.erase offlineAccess }
      offlineAccessAt :=
        if offlineAccess ∈ recorded.scopes then
          some (remembered.offlineAccessAt.elim grant.createdAt (max · grant.createdAt))
        else remembered.offlineAccessAt }
  else remembered

/-- What the grants that still stand hold. -/
def ofClient (serde : Serde) (grants : List ConsentGrant) (client subject : String) (now : ℤ) :
    Remembered :=
  grants.foldl (remember serde client subject now) default

/-- `offline_access` was agreed to within the window. -/
def offlineAccessIsFresh (remembered : Remembered) (policy : MemoryPolicy) (now : ℤ) : Bool :=
  remembered.offlineAccessAt.any fun at_ => now < at_ + policy.offlineAccessMemory

/-- What is asked for and not held; the difference alone never takes `offline_access` out. -/
def uncovered (remembered : Remembered) (asked : Asked) (policy : MemoryPolicy) (now : ℤ) : Asked :=
  let delta := asked.minus remembered.covered
  if offlineAccess ∈ asked.scopes ∧ remembered.offlineAccessIsFresh policy now then
    { delta with scopes := delta.scopes.erase offlineAccess }
  else delta

/-- What is left to ask about. -/
def covers (remembered : Remembered) (asked : Asked) (policy : MemoryPolicy) (now : ℤ) :
    Coverage :=
  if policy.alwaysAsk ∨ remembered.grants = 0 then .delta asked
  else if (remembered.uncovered asked policy now).isEmpty then .covered
  else .delta (remembered.uncovered asked policy now)

/-! ### What the fold holds -/

section

variable (serde : Serde)

/-- The memory holds what the listed grants record, each of them counted. -/
structure Holds (live : List ConsentGrant) (remembered : Remembered) : Prop where
  grants : remembered.grants = live.length
  covered : ∀ kind item, item ∈ remembered.covered.items kind ↔
    ¬(kind = .scope ∧ item = offlineAccess) ∧
    ∃ grant ∈ live, item ∈ (grant.recorded serde).items kind
  /-- The stamp is the latest one: it is described by the instants before it. -/
  offline : ∀ instant, (∃ latest, remembered.offlineAccessAt = some latest ∧ instant < latest) ↔
    ∃ grant ∈ live, offlineAccess ∈ grant.scopes ∧ instant < grant.createdAt

variable {serde}

theorem holds_default : Holds serde [] default where
  grants := rfl
  covered := by simp [default]
  offline := by simp [default]

theorem items_erase_offlineAccess (asked : Asked) (kind : AskedKind) (item : String) :
    item ∈ ({ asked with scopes := asked.scopes.erase offlineAccess } : Asked).items kind ↔
      ¬(kind = .scope ∧ item = offlineAccess) ∧ item ∈ asked.items kind := by
  cases kind <;> simp [Asked.items]

theorem Holds.remember {live : List ConsentGrant} {remembered : Remembered}
    {client subject : String} {now : ℤ} {grant : ConsentGrant} (h : Holds serde live remembered)
    (hlv : isLive client subject now grant = true) :
    Holds serde (live ++ [grant]) (remembered.remember serde client subject now grant) := by
  rw [Remembered.remember, if_pos hlv]
  refine ⟨?_, fun kind item => ?_, fun instant => ?_⟩
  · simp [h.grants]
  · rw [Asked.items_absorb, Finset.mem_union, h.covered, items_erase_offlineAccess, ← and_or_left]
    simp [or_and_right, exists_or]
  · have hold := h.offline instant
    simp only [List.mem_append, List.mem_singleton, or_and_right, exists_or, ← hold]
    change (∃ latest, (if offlineAccess ∈ grant.scopes then _ else _) = some latest ∧ _) ↔ _
    by_cases hsc : offlineAccess ∈ grant.scopes
    · rcases remembered.offlineAccessAt with _ | _ <;> simp [hsc]
    · simp [hsc]

theorem Holds.foldl {client subject : String} {now : ℤ} (grants : List ConsentGrant) :
    ∀ {live : List ConsentGrant} {remembered : Remembered}, Holds serde live remembered →
      Holds serde (live ++ grants.filter (isLive client subject now))
        (grants.foldl (Remembered.remember serde client subject now) remembered) := by
  induction grants with
  | nil => intro live remembered h; simpa using h
  | cons grant grants ih =>
    intro _ _ h
    by_cases hlv : isLive client subject now grant = true
    · rw [List.filter_cons_of_pos hlv, List.append_cons]
      exact ih (h.remember hlv)
    · rw [List.filter_cons_of_neg hlv, List.foldl_cons, Remembered.remember, if_neg hlv]
      exact ih h

/-- The memory of a client and a user holds what their live grants record. -/
theorem holds_ofClient (grants : List ConsentGrant) (client subject : String) (now : ℤ) :
    Holds serde (grants.filter (isLive client subject now))
      (ofClient serde grants client subject now) :=
  holds_default.foldl grants

end

/-! ### What is left to ask about -/

/-- A live grant records the item, and a consent to `offline_access` is recent enough. -/
def Stands (serde : Serde) (live : List ConsentGrant) (policy : MemoryPolicy) (now : ℤ)
    (kind : AskedKind) (item : String) : Prop :=
  ∃ grant ∈ live, item ∈ (grant.recorded serde).items kind ∧
    (kind = .scope ∧ item = offlineAccess → now < grant.createdAt + policy.offlineAccessMemory)

variable {serde : Serde} {live : List ConsentGrant} {remembered : Remembered}

section

variable (h : Holds serde live remembered)
include h

variable (asked : Asked) (policy : MemoryPolicy) (now : ℤ)

theorem Holds.isFresh : remembered.offlineAccessIsFresh policy now = true ↔
      Stands serde live policy now .scope offlineAccess := by
  have hlst := h.offline (now - policy.offlineAccessMemory)
  simp only [sub_lt_iff_lt_add] at hlst
  simp only [offlineAccessIsFresh, Option.any_eq_true, decide_eq_true_eq, Stands, and_self,
    true_imp_iff]
  exact hlst

theorem Holds.mem_uncovered (kind : AskedKind) (item : String) :
    item ∈ (remembered.uncovered asked policy now).items kind ↔
      item ∈ asked.items kind ∧ ¬Stands serde live policy now kind item := by
  have hdel : item ∈ (asked.minus remembered.covered).items kind ↔ item ∈ asked.items kind ∧
      ¬(¬(kind = .scope ∧ item = offlineAccess) ∧
        ∃ grant ∈ live, item ∈ (grant.recorded serde).items kind) := by
    rw [Asked.items_minus, Finset.mem_sdiff, h.covered]
  by_cases hof : kind = .scope ∧ item = offlineAccess
  · -- the difference never takes `offline_access` out, only a fresh consent does
    obtain ⟨rfl, rfl⟩ := hof
    rw [← h.isFresh, uncovered]
    split_ifs with hfr
    · rw [items_erase_offlineAccess]
      simp [hfr.2]
    · rw [hdel]
      simp only [not_true_eq_false, false_and, not_false_eq_true, and_true]
      exact ⟨fun hask => ⟨hask, fun hf => hfr ⟨hask, hf⟩⟩, And.left⟩
  · have hst : Stands serde live policy now kind item ↔
        ∃ grant ∈ live, item ∈ (grant.recorded serde).items kind := by
      simp [Stands, hof]
    rw [hst, uncovered]
    split_ifs
    · rw [items_erase_offlineAccess, hdel]
      simp [hof]
    · rw [hdel]
      simp [hof]

theorem Holds.covers_eq_covered :
    remembered.covers asked policy now = .covered ↔ policy.alwaysAsk = false ∧ live ≠ [] ∧
    ∀ kind, ∀ item ∈ asked.items kind, Stands serde live policy now kind item := by
  have hgrs : remembered.grants = 0 ↔ live = [] := by rw [h.grants, List.length_eq_zero_iff]
  have hemp : (remembered.uncovered asked policy now).isEmpty = true ↔
      ∀ kind, ∀ item ∈ asked.items kind, Stands serde live policy now kind item := by
    rw [Asked.isEmpty_iff]
    refine forall_congr' fun kind => ?_
    rw [Finset.eq_empty_iff_forall_notMem]
    simp [h.mem_uncovered]
  rw [← hemp, Ne, ← hgrs, covers]
  split_ifs with hask hno
  · rcases hask with hask | hask <;> simp [hask]
  · rw [not_or] at hask
    simp [hask.1, hask.2, hno]
  · simp [hno]

theorem Holds.mem_delta {asked delta : Asked} {policy : MemoryPolicy} {now : ℤ}
    (hcov : remembered.covers asked policy now = .delta delta) (kind : AskedKind) (item : String) :
    item ∈ delta.items kind ↔ item ∈ asked.items kind ∧
    (policy.alwaysAsk = true ∨ ¬Stands serde live policy now kind item) := by
  rw [covers] at hcov
  split_ifs at hcov with hask
  · obtain rfl := Coverage.delta.inj hcov
    refine (and_iff_left_of_imp fun _ => hask.imp_right fun hgrs => ?_).symm
    -- without a live grant nothing stands
    rw [h.grants, List.length_eq_zero_iff] at hgrs
    simp [Stands, hgrs]
  · obtain rfl := Coverage.delta.inj hcov
    rw [not_or] at hask
    rw [h.mem_uncovered]
    simp [hask.1]

theorem Holds.covers_congr {others : List ConsentGrant} {remembered' : Remembered}
    (h' : Holds serde others remembered') (hsm : ∀ grant, grant ∈ live ↔ grant ∈ others)
    (asked : Asked) (policy : MemoryPolicy) (now : ℤ) :
    remembered.covers asked policy now = remembered'.covers asked policy now := by
  have hgrs : remembered.grants = 0 ↔ remembered'.grants = 0 := by
    simp [h.grants, h'.grants, List.eq_nil_iff_forall_not_mem, hsm]
  have hunc : remembered.uncovered asked policy now =
      remembered'.uncovered asked policy now := by
    refine Asked.ext_items fun kind => Finset.ext fun item => ?_
    simp [h.mem_uncovered, h'.mem_uncovered, Stands, hsm]
  simp [covers, hgrs, hunc]

end

/-- The screen is skipped when a tenant that remembers has a live grant of the client and the
user, and each thing asked for stands.  Otherwise the delta is what does not stand, or everything
for a tenant that always asks.  Only the live grants of the client and the user matter, in any
order. -/
theorem covers_spec (serde : Serde) (grants : List ConsentGrant) (client subject : String)
    (asked : Asked) (policy : MemoryPolicy) (now : ℤ) :
    let live := grants.filter (isLive client subject now)
    let answer := (ofClient serde grants client subject now).covers asked policy now
    (answer = .covered ↔ policy.alwaysAsk = false ∧ live ≠ [] ∧
      ∀ kind, ∀ item ∈ asked.items kind, Stands serde live policy now kind item) ∧
    (∀ delta, answer = .delta delta → ∀ kind item, item ∈ delta.items kind ↔
      item ∈ asked.items kind ∧
      (policy.alwaysAsk = true ∨ ¬Stands serde live policy now kind item)) ∧
    ∀ others : List ConsentGrant,
      (∀ grant, isLive client subject now grant = true → (grant ∈ others ↔ grant ∈ grants)) →
      (ofClient serde others client subject now).covers asked policy now = answer := by
  intro live _
  have hhl : Holds serde live (ofClient serde grants client subject now) :=
    holds_ofClient grants client subject now
  refine ⟨hhl.covers_eq_covered asked policy now, fun delta hdel => hhl.mem_delta hdel,
    fun others hsm => ?_⟩
  refine (holds_ofClient others client subject now).covers_congr hhl (fun grant => ?_) _ _ _
  rw [List.mem_filter, List.mem_filter]
  exact and_congr_left (hsm grant)

/-- The grant of a user who agreed to `openid` and `offline_access` at instant zero. -/
def readerGrant : ConsentGrant :=
  { Grant.new "grant-1" "reader" "rev-1" 0 with
    subject := some "ada"
    scopes := {"openid", offlineAccess}
    claims := .obj []
    claimsLocales := []
    authentication := none
    updatedAt := 0 }

/-- A tenant that always asks shows what a live grant records, and so does one that remembers
for `offline_access` after the window. -/
theorem covers_shows_recorded : let asked := { Asked.default with scopes := readerGrant.scopes }
    let later := defaultOfflineAccessMemory
    isLive "reader" "ada" later readerGrant = true ∧
    (ofClient .compact [readerGrant] "reader" "ada" later).covers asked
      { MemoryPolicy.default with alwaysAsk := true } later = .delta asked ∧
    (ofClient .compact [readerGrant] "reader" "ada" later).covers asked .default later =
      .delta { Asked.default with scopes := {offlineAccess} } := by
  decide +kernel

end Remembered

end AsteriusIdp
