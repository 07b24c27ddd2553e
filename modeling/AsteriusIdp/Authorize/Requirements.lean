import AsteriusIdp.Authorize.Request
import AsteriusIdp.Claims.RoundTrip

/-!
# Authentication requirements

What a request needs of the authentication, computed from the request itself
(`Requirements.fromRequest`) and, a redirect later, from its stored parameters
(`Requirements.fromParameters`).

The two agree on everything but the `acr` values that are required: those come out of the stored
claims document, and when that document does not read back nothing is required at all
(`Requirements.fromParameters_spec`).  For a client of the identity-only profile what is stored
is stricter than the request: its `acr_values` are requirements.
-/

namespace AsteriusIdp

open Fallible Json Entries ClaimsRequest

/-- What a request needs, without everything that does not bear on the decision. -/
@[ext]
structure Requirements where
  prompts : Finset Prompt
  maxAge : Option UInt32
  hintedSubject : Option String
  /-- Preferences. -/
  acrValues : List String
  /-- Requirements. -/
  essentialAcr : List String
  deriving DecidableEq

/-- The `acr` values that a claims request marks essential. -/
def ClaimsRequest.essentialAcr (claims : ClaimsRequest) : List String :=
  (claims.acr.filter (·.essential)).elim [] fun acr => acr.values.filterMap asStr

/-- The stored `acr` values that are required; a document that does not read back requires
nothing. -/
def essentialAcr (serde : Serde) (parameters : Json) : List String :=
  match parameters.member "claims" with
  | none => []
  | some claims =>
    match ClaimsRequest.fromJson serde claims with
    | .error _ => []
    | .ok claims => claims.essentialAcr

namespace Requirements

/-- The requirements of a validated request. -/
def fromRequest (request : AuthorizationRequest) (hintedSubject : Option String) : Requirements :=
  { prompts := request.prompts
    maxAge := request.maxAge
    hintedSubject
    acrValues := request.acrValues
    essentialAcr := request.claims.essentialAcr }

/-- The texts of a member that is an array. -/
def strings (parameters : Json) (name : String) : List String :=
  ((parameters.member name).bind asArray).elim [] (·.filterMap asStr)

/-- The requirements read back from the stored parameters. -/
def fromParameters (serde : Serde) (parameters : Json) : Requirements :=
  { prompts := ((strings parameters "prompts").filterMap Prompt.parse).toFinset
    maxAge := ((parameters.member "max_age").bind asU64).bind fun seconds =>
      if h : seconds < UInt32.size then some (UInt32.ofNatLT seconds h) else none
    hintedSubject := (parameters.member "id_token_hint_sub").bind asStr
    acrValues := strings parameters "acr_values"
    essentialAcr := AsteriusIdp.essentialAcr serde parameters }

end Requirements

/-! ### What is stored -/

/-- The claims request whose canonical form is stored. -/
def storedClaims (identityOnly : Bool) (request : AuthorizationRequest) : ClaimsRequest :=
  if identityOnly ∧ request.acrValues ≠ [] then
    { request.claims with
      acr := some { essential := true, values := (requiredAcr request).map .str } }
  else request.claims

theorem validate_claims {serde : Serde} {policy : AuthorizationPolicy} {target : RequestTarget}
    {params : Parameters} {req : AuthorizationRequest}
    (h : validate serde policy target params = .ok req) :
    parseClaims serde params.claims = .ok req.claims := by
  simp only [validate, bind_ok, refuseIf_ok, exists_const, pure_ok] at h
  obtain ⟨_, -, _, -, _, hcls, -, rfl⟩ := h
  exact hcls

variable {claims : ClaimsRequest}

theorem parseClaims_sound {serde : Serde} {raw : Option String}
    (h : parseClaims serde raw = .ok claims) : claims.Accepted ∧ Plain 9 claims.toJson := by
  cases raw with
  | none =>
    cases h
    exact default_sound
  | some =>
    rw [parseClaims, mapError_ok] at h
    exact parse_sound serde h

theorem ClaimsRequest.Accepted.plain_setAcr (h : claims.Accepted)
    (hpl : Plain 9 claims.toJson) {acr : ClaimRequest} (hacr : ∀ v ∈ acr.values, Plain 5 v) :
    Plain 9 { claims with acr := some acr }.toJson := by
  have hid : lookup claims.rootJson "id_token" = some (.obj claims.idContent.json) := by
    cases hasc : claims.asc <;> simp [rootJson, hasc, lookup_cons]
  rw [h.toJson_setAcr]
  rw [toJson_eq] at hpl ⊢
  have hsec : Plain 8 (.obj claims.idContent.json) :=
    ((plain_obj.1 hpl).2 _ (mem_of_lookup hid)).2
  rw [member_obj, hid]
  exact hpl.insert (by decide) (hsec.insert (by decide) (ClaimRequest.plain_toJson hacr))

variable {serde : Serde} {policy : AuthorizationPolicy} {target : RequestTarget}
  {params : Parameters} {req : AuthorizationRequest} {identityOnly : Bool}
  {signedResponseAlg hintedSubject dpopJkt : Option String} {parameters : Object}

theorem storedClaims_sound (h : validate serde policy target params = .ok req)
    (identityOnly : Bool) :
    (storedClaims identityOnly req).Accepted ∧
      Plain 9 (storedClaims identityOnly req).toJson := by
  obtain ⟨hacc, hpl⟩ := parseClaims_sound (validate_claims h)
  unfold storedClaims
  split_ifs
  · refine ⟨⟨{ hacc.id with }, hacc.user, hacc.asc⟩,
      hacc.plain_setAcr hpl ?_⟩
    exact List.forall_mem_map.2 fun value _ => plain_str _ _
  · exact ⟨hacc, hpl⟩

/-- The members that are stored: those of the request, with the claims that are imposed. -/
theorem lookup_storedParameters (hacc : req.claims.Accepted)
    (h : storedParameters identityOnly req signedResponseAlg hintedSubject dpopJkt =
      .ok parameters) (name : String) :
    lookup parameters name =
      if name = "claims" then some (storedClaims identityOnly req).toJson
      else lookup
        (serialisedMembers req signedResponseAlg hintedSubject dpopJkt) name := by
  have hser : lookup (serialisedMembers req signedResponseAlg hintedSubject
      dpopJkt) "claims" = some req.claims.toJson := by
    simp [serialisedMembers, lookup_cons]
  unfold storedParameters at h
  cases identityOnly with
  | false =>
    simp only [Bool.false_eq_true, if_false, pure_ok] at h
    rw [← h, lookup_serialise]
    split_ifs with hnm
    · simp [hnm, hser, storedClaims]
    · rfl
  | true =>
    simp only [if_true, bind_ok, pure_ok] at h
    obtain ⟨claims, hcls, rfl⟩ := h
    have hsto : claims = (storedClaims true req).toJson := by
      unfold ipsieAcrClaims at hcls
      split_ifs at hcls with hno hcf
      · simpa [storedClaims, hno, eq_comm] using hcls
      · rw [storedClaims, if_pos ⟨rfl, hno⟩, hacc.toJson_setAcr]
        simp [ClaimRequest.toJson_eq, hcf, ← Except.ok.inj hcls]
    rw [lookup_insert, hsto, lookup_serialise]

/-! ### Reading the stored parameters -/

theorem filterMap_asStr_map (values : List String) :
    (values.map Json.str).filterMap asStr = values := by
  rw [List.filterMap_map]
  exact List.filterMap_some

section

variable (serde) (hsound : (storedClaims identityOnly req).Accepted ∧
  Plain 9 (storedClaims identityOnly req).toJson)
include hsound

/-- What is stored reads back as it was, or not at all. -/
theorem fromJson_storedClaims :
    fits serde (storedClaims identityOnly req) = true ∧
    fromJson serde (storedClaims identityOnly req).toJson =
      .ok (storedClaims identityOnly req) ∨ fits serde (storedClaims identityOnly req) = false ∧
      ∃ e, fromJson serde (storedClaims identityOnly req).toJson = .error e := by
  have hrd : ∀ result, fromJson serde (storedClaims identityOnly req).toJson =
      .ok result ↔ _ := fun _ => hsound.1.fromJson_toJson serde (hsound.2.mono (by decide))
  by_cases hft : fits serde (storedClaims identityOnly req) = true
  · exact .inl ⟨hft, (hrd _).2 ⟨rfl, hft⟩⟩
  · refine .inr ⟨Bool.eq_false_iff.2 hft, ?_⟩
    cases hres : fromJson serde (storedClaims identityOnly req).toJson with
    | error e => exact ⟨e, rfl⟩
    | ok claims => exact absurd ((hrd claims).1 hres).2 hft

/-- The required values that are read back: those that were stored, or none. -/
theorem essentialAcr_eq
    (hlk : lookup parameters "claims" = some (storedClaims identityOnly req).toJson) :
    essentialAcr serde (.obj parameters) =
      if fits serde (storedClaims identityOnly req) then
        (storedClaims identityOnly req).essentialAcr else [] := by
  simp only [essentialAcr, member_obj, hlk]
  rcases fromJson_storedClaims serde hsound with ⟨hft, hrd⟩ | ⟨hft, _, hrd⟩ <;>
    simp [hft, hrd]

end

namespace Requirements

/-- The requirements a stored request stands for: those of the request, except that a client of
the identity-only profile is held to its preferences. -/
def imposed (identityOnly : Bool) (request : AuthorizationRequest)
    (hintedSubject : Option String) : Requirements :=
  { fromRequest request hintedSubject with
    essentialAcr :=
      if identityOnly ∧ request.acrValues ≠ [] then requiredAcr request
      else request.claims.essentialAcr }

theorem essentialAcr_storedClaims (identityOnly : Bool) (req : AuthorizationRequest)
    (hintedSubject : Option String) :
    (storedClaims identityOnly req).essentialAcr =
      (imposed identityOnly req hintedSubject).essentialAcr := by
  simp only [storedClaims, imposed]
  split_ifs
  · exact filterMap_asStr_map _
  · rfl

theorem prompts_eq (prompts : Finset Prompt) :
    (((Prompt.all.filter (· ∈ prompts)).map Prompt.asStr).filterMap Prompt.parse).toFinset =
      prompts := by
  have hpar : (Prompt.parse ∘ Prompt.asStr) = some := funext Prompt.parse_asStr
  ext prompt
  simp [Prompt.mem_all]

theorem maxAge_eq (maxAge : Option UInt32) :
    ((maxAge.elim Json.null fun s => .num (.posInt s.toUInt64)).asU64.bind fun seconds =>
      if h : seconds < UInt32.size then some (UInt32.ofNatLT seconds h) else none) = maxAge := by
  cases maxAge with
  | none => rfl
  | some seconds => simp [asU64, seconds.toNat_lt]

/-- Everything but the required values is read back as it was. -/
theorem fromParameters_eq (hlk : ∀ name, lookup parameters name =
      if name = "claims" then some (storedClaims identityOnly req).toJson
      else lookup
        (serialisedMembers req signedResponseAlg hintedSubject dpopJkt) name) :
    fromParameters serde (.obj parameters) =
      { imposed identityOnly req hintedSubject with
        essentialAcr := AsteriusIdp.essentialAcr serde (.obj parameters) } := by
  have hpr : strings (.obj parameters) "prompts" =
      (Prompt.all.filter (· ∈ req.prompts)).map Prompt.asStr := by
    rw [strings, member_obj, hlk, ← filterMap_asStr_map (List.map _ _)]
    simp [serialisedMembers, lookup_cons, asArray]
  have hage : (lookup parameters "max_age").bind asU64 =
      (req.maxAge.elim Json.null fun seconds => .num (.posInt seconds.toUInt64)).asU64 := by
    simp [hlk, serialisedMembers, lookup_cons]
  have hhi : (lookup parameters "id_token_hint_sub").bind asStr = hintedSubject := by
    cases hintedSubject <;>
      simp [hlk, serialisedMembers, lookup_cons, optionJson, asStr]
  have hacr : strings (.obj parameters) "acr_values" = req.acrValues := by
    rw [strings, member_obj, hlk, ← filterMap_asStr_map req.acrValues]
    simp [serialisedMembers, lookup_cons, asArray]
  simp only [fromParameters, imposed, fromRequest, hpr, prompts_eq, member_obj, hage,
    maxAge_eq, hhi, hacr]

theorem essentialAcr_fromParameters (hok : validate serde policy target params = .ok req)
    (hsto : storedParameters identityOnly req signedResponseAlg hintedSubject dpopJkt =
      .ok parameters) :
    (fromParameters serde (.obj parameters)).essentialAcr =
      if fits serde (storedClaims identityOnly req) then
        (storedClaims identityOnly req).essentialAcr
      else [] := by
  have hlk := lookup_storedParameters (parseClaims_sound (validate_claims hok)).1 hsto
  exact essentialAcr_eq serde (storedClaims_sound hok identityOnly)
    ((hlk "claims").trans (if_pos rfl))

/-- **Reading the requirements back.**  From the stored parameters of a validated request the
prompts, the age, the hinted subject and the preferences are read as they were, and the required
`acr` values are those imposed exactly when the stored claims document keeps to the bounds of its
reader or requires none.  For other clients than those of the identity-only profile what is
imposed is what the request asks for, and the bounds are decided by the document that was sent. -/
theorem fromParameters_spec (hvalid : validate serde policy target params = .ok request)
    (hstored : storedParameters identityOnly request signedResponseAlg hintedSubject dpopJkt =
      .ok parameters) :
    { fromParameters serde (.obj parameters) with essentialAcr := [] } =
        { imposed identityOnly request hintedSubject with essentialAcr := [] } ∧
      (fromParameters serde (.obj parameters) = imposed identityOnly request hintedSubject ↔
        ClaimsRequest.fits serde (storedClaims identityOnly request) = true ∨
        (imposed identityOnly request hintedSubject).essentialAcr = []) ∧
      (identityOnly = false →
        imposed identityOnly request hintedSubject = fromRequest request hintedSubject ∧
        ∀ raw root, params.claims = some raw → serde.fromStr raw = some (.obj root) →
          (ClaimsRequest.fits serde (storedClaims identityOnly request) = true ↔
            ClaimsRequest.restorable root = true)) := by
  have hcls := validate_claims hvalid
  have hlk := lookup_storedParameters (parseClaims_sound hcls).1 hstored
  have hess : AsteriusIdp.essentialAcr serde (.obj parameters) = _ :=
    essentialAcr_fromParameters hvalid hstored
  rw [essentialAcr_storedClaims identityOnly request hintedSubject] at hess
  rw [fromParameters_eq hlk, hess]
  refine ⟨rfl, ?_, ?_⟩
  · rw [Requirements.ext_iff]
    by_cases hft : fits serde (storedClaims identityOnly request) = true
    · simp [hft]
    · simp only [hft, Bool.false_eq_true, true_and, false_or]
      exact eq_comm
  · rintro rfl
    refine ⟨by simp [imposed, fromRequest], fun raw root hraw hrt => ?_⟩
    rw [hraw, parseClaims, mapError_ok] at hcls
    simpa [storedClaims] using fits_iff_restorable serde hrt hcls

/-! ### Requests of a reader -/

/-- What the other parameters of the requests below are read to. -/
def readerTarget : RequestTarget :=
  { clientId := "reader", redirectUri := "https://reader.example/cb", responseMode := .query
    scopes := ∅, codeChallenge := "E9Melhoa2OwvFrEMTJguCHaoeK1t8URWbuGJSstw-cM", state := none
    nonce := none, loginHint := none, resources := ∅, authorizationDetails := []
    claimsLocales := [], uiLocales := [], openid := true, grantManagement := none }

/-- A tenant without options. -/
def readerPolicy : AuthorizationPolicy := { promptCreate := false, advancedClaims := false }

/-- Asks for a level of authentication that is required. -/
def essentialText : String :=
  "\x7b\"id_token\":\x7b\"acr\":\x7b\"essential\":true,\"values\":[\"gold\"]\x7d\x7d\x7d"

/-- The parameters with it. -/
def essentialParameters : Parameters :=
  { prompt := some "login", maxAge := some "60", acrValues := none, claims := some essentialText }

/-- What they are read to. -/
def essentialRequest : AuthorizationRequest :=
  { readerTarget with
    prompts := {.login}, maxAge := some 60, acrValues := []
    claims := { ClaimsRequest.default with
      acr := some { essential := true, values := [.str "gold"] } } }

theorem validate_essential :
    validate .compact readerPolicy readerTarget essentialParameters = .ok essentialRequest := by
  decide +kernel

theorem fromParameters_essential :
    fromParameters .compact (.obj (serialise essentialRequest none none none)) =
      fromRequest essentialRequest none ∧
      (fromRequest essentialRequest none).essentialAcr = ["gold"] := by
  have hsto : storedParameters false essentialRequest none none none =
      .ok (serialise essentialRequest none none none) := rfl
  obtain ⟨-, hiff, hord⟩ := fromParameters_spec validate_essential hsto
  have hft : fits .compact (storedClaims false essentialRequest) = true := by
    decide +kernel
  exact ⟨(hiff.2 (.inl hft)).trans (hord rfl).1, by decide⟩

/-- Prefers a level of authentication. -/
def preferringParameters : Parameters :=
  { prompt := none, maxAge := none, acrValues := some "gold", claims := none }

/-- What they are read to. -/
def preferringRequest : AuthorizationRequest :=
  { readerTarget with
    prompts := ∅, maxAge := none, acrValues := ["gold"], claims := ClaimsRequest.default }

/-- Requires a level of authentication and accepts one value of a claim, as deep as a document
allows. -/
def deepEssentialText : String :=
  "\x7b\"id_token\":\x7b\"acr\":\x7b\"essential\":true,\"values\":[\"gold\"]\x7d,\"email\":\x7b\"value\":[[[[1]]]]\x7d\x7d\x7d"

/-- What it is read to. -/
def deepEssentialRequest : AuthorizationRequest :=
  { readerTarget with
    prompts := ∅, maxAge := none, acrValues := []
    claims := { ClaimsRequest.deepRequest with
      acr := some { essential := true, values := [.str "gold"] } } }

/-- **What is read back is not what was asked for.**  The preference of a client of the
identity-only profile is read back as a requirement, and the requirement of another client, whose
claims document cannot be read back, is not read back at all. -/
theorem fromParameters_ne_fromRequest :
    (∃ parameters,
      validate .compact readerPolicy readerTarget preferringParameters = .ok preferringRequest ∧
      storedParameters true preferringRequest none none none = .ok parameters ∧
      (fromRequest preferringRequest none).essentialAcr = [] ∧
      (fromParameters .compact (.obj parameters)).essentialAcr = ["gold"]) ∧ ∃ parameters,
      validate .compact readerPolicy readerTarget
        { prompt := none, maxAge := none, acrValues := none, claims := some deepEssentialText } =
          .ok deepEssentialRequest ∧
      storedParameters false deepEssentialRequest none none none = .ok parameters ∧
      (fromRequest deepEssentialRequest none).essentialAcr = ["gold"] ∧
      (fromParameters .compact (.obj parameters)).essentialAcr = [] := by
  have hpr : validate .compact readerPolicy readerTarget preferringParameters =
      .ok preferringRequest := by decide +kernel
  have hde : validate .compact readerPolicy readerTarget
      { prompt := none, maxAge := none, acrValues := none, claims := some deepEssentialText } =
        .ok deepEssentialRequest := by decide +kernel
  have hstr : storedParameters true preferringRequest none none none = .ok _ := rfl
  have hpl : storedParameters false deepEssentialRequest none none none = .ok _ := rfl
  refine ⟨⟨_, hpr, hstr, rfl, ?_⟩, _, hde, hpl, by decide, ?_⟩
  · decide +kernel
  · decide +kernel

end Requirements

end AsteriusIdp
