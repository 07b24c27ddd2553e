import AsteriusIdp.Claims.Request

/-!
# Pushed authorization requests

A client pushes the parameters of an authorization request, they are validated once (`validate`)
and the validated request is stored as a document (`storedParameters`).  Everything that happens
later, in the browser, reads that document.

The parameters that say how the user has to be authenticated (`prompt`, `max_age`, `acr_values`
and `claims`) are read here as the source reads them.  What the other parameters are read to is
a record of its own (`RequestTarget`): their checks can refuse a request but change nothing about
the rest of it.
-/

namespace AsteriusIdp

open Fallible Entries

/-! ### Parameters -/

/-- The values of the `prompt` parameter. -/
inductive Prompt where
  /-- Do not interact. -/
  | none
  | login
  | consent
  | selectAccount
  | create
  deriving DecidableEq

/-- What a tenant offers. -/
structure AuthorizationPolicy where
  promptCreate : Bool
  advancedClaims : Bool

/-- Why a request is refused. -/
inductive AuthorizationError where
  | invalid (parameter : String)
  | unsupportedPrompt
  | conflictingPrompt
  | claims (error : ClaimsRequestError)
  deriving DecidableEq

/-- The tenant offers the prompt. -/
def AuthorizationPolicy.offers (policy : AuthorizationPolicy) : Prompt → Bool
  | .create => policy.promptCreate
  | .none | .login | .consent | .selectAccount => true

namespace Prompt

/-- The prompts. -/
def all : List Prompt := [none, login, consent, selectAccount, create]

/-- Its wire name. -/
def asStr : Prompt → String
  | none => "none"
  | login => "login"
  | consent => "consent"
  | selectAccount => "select_account"
  | create => "create"

/-- The prompt of a name. -/
def parse (value : String) : Option Prompt := all.find? (·.asStr = value)

@[simp] theorem parse_asStr (prompt : Prompt) : parse prompt.asStr = some prompt := by
  cases prompt <;> decide

theorem mem_all (prompt : Prompt) : prompt ∈ all := by cases prompt <;> decide

/-- Read one word of the parameter. -/
def addPrompt (policy : AuthorizationPolicy) (prompts : Finset Prompt) (token : String) :
    Except AuthorizationError (Finset Prompt) := do
  let prompt ← okOr (parse token) (.invalid "prompt")
  refuseIf (¬policy.offers prompt) .unsupportedPrompt
  pure (insert prompt prompts)

/-- The whole parameter; `none` stands alone. -/
def parseList (raw : Option String) (policy : AuthorizationPolicy) :
    Except AuthorizationError (Finset Prompt) := do
  let prompts ← (Text.splitWhitespace (raw.getD "")).foldlM (addPrompt policy) ∅
  refuseIf (Prompt.none ∈ prompts ∧ 1 < prompts.card) .conflictingPrompt
  pure prompts

end Prompt

/-- Digits only, for a number of seconds that fits 32 bits. -/
def parseMaxAge : Option String → Except AuthorizationError (Option UInt32)
  | .none => .ok .none
  | some raw =>
    if raw = "" ∨ ¬raw.toList.all Char.isDigit then .error (.invalid "max_age")
    else if h : Nat.ofDigitChars 10 raw.toList 0 < UInt32.size then
      .ok (some (UInt32.ofNatLT _ h))
    else .error (.invalid "max_age")

/-- The most `acr_values` of a request. -/
def maxAcrValues : ℕ := 16

/-- Take one more preference; those past the bound are dropped. -/
def addAcrValue (values : List String) (value : String) : List String :=
  if values.length = maxAcrValues then values
  else if value ∈ values then values
  else values ++ [value]

/-- The `acr_values`, without repetitions. -/
def parseAcrValues (raw : Option String) : List String :=
  (Text.splitWhitespace (raw.getD "")).foldl addAcrValue []

/-! ### Requests -/

/-- How the response is delivered. -/
inductive ResponseMode where
  | query
  | formPost
  | queryJwt
  | jwt
  | formPostJwt
  deriving DecidableEq

/-- Its wire name. -/
def ResponseMode.asStr : ResponseMode → String
  | query => "query"
  | formPost => "form_post"
  | queryJwt => "query.jwt"
  | jwt => "jwt"
  | formPostJwt => "form_post.jwt"

/-- What a request does with a grant that exists. -/
inductive GrantAction where
  | create
  | merge
  | replace
  deriving DecidableEq

/-- Its wire name. -/
def GrantAction.asStr : GrantAction → String
  | create => "create"
  | merge => "merge"
  | replace => "replace"

/-- The grant management parameters of a request. -/
structure GrantManagement where
  action : GrantAction
  grantId : Option String
  deriving DecidableEq

/-- What the parameters were read to that say what is asked for and how it is delivered. -/
structure RequestTarget where
  clientId : String
  redirectUri : String
  responseMode : ResponseMode
  scopes : Finset String
  codeChallenge : String
  state : Option String
  nonce : Option String
  loginHint : Option String
  resources : Finset String
  authorizationDetails : List Json
  claimsLocales : List String
  uiLocales : List String
  openid : Bool
  grantManagement : Option GrantManagement
  deriving DecidableEq

/-- An authorization request that has passed every check. -/
structure AuthorizationRequest extends RequestTarget where
  prompts : Finset Prompt
  maxAge : Option UInt32
  /-- In the order of preference. -/
  acrValues : List String
  claims : ClaimsRequest
  deriving DecidableEq

/-- The parameters that are read here, as the form carries them. -/
structure Parameters where
  prompt : Option String
  maxAge : Option String
  acrValues : Option String
  claims : Option String

/-- The `claims` parameter; without one nothing is asked for. -/
def parseClaims (serde : Serde) : Option String → Except AuthorizationError ClaimsRequest
  | .none => .ok .default
  | some raw => (ClaimsRequest.parse serde raw).mapError .claims

/-- Validate a pushed request. -/
def validate (serde : Serde) (policy : AuthorizationPolicy) (target : RequestTarget)
    (params : Parameters) : Except AuthorizationError AuthorizationRequest := do
  let prompts ← Prompt.parseList params.prompt policy
  let maxAge ← parseMaxAge params.maxAge
  let acrValues := parseAcrValues params.acrValues
  let claims ← parseClaims serde params.claims
  refuseIf (claims.asc.isSome ∧ ¬policy.advancedClaims) (.claims .unsupportedAdvancedClaims)
  pure { target with prompts, maxAge, acrValues, claims }

/-! ### The stored form -/

/-- A text or `null`. -/
def optionJson (value : Option String) : Json := value.elim .null .str

/-- The texts of a set, in their order. -/
def setJson (values : Finset String) : Json := .arr ((values.sort (· ≤ ·)).map .str)

/-- The members of the document a request is stored as.  The subject of the `id_token_hint`, the
signing algorithm of the client and the key that was pinned are decided outside the request. -/
def serialisedMembers (request : AuthorizationRequest)
    (signedResponseAlg hintedSubject dpopJkt : Option String) : List (String × Json) :=
  [("client_id", .str request.clientId),
    ("redirect_uri", .str request.redirectUri),
    ("response_mode", .str request.responseMode.asStr),
    ("authorization_signed_response_alg", optionJson signedResponseAlg),
    ("scopes", setJson request.scopes),
    ("code_challenge", .str request.codeChallenge),
    ("state", optionJson request.state),
    ("nonce", optionJson request.nonce),
    ("prompts", .arr ((Prompt.all.filter (· ∈ request.prompts)).map fun p => .str p.asStr)),
    ("max_age", request.maxAge.elim .null fun seconds => .num (.posInt seconds.toUInt64)),
    ("acr_values", .arr (request.acrValues.map .str)),
    ("login_hint", optionJson request.loginHint),
    ("id_token_hint_sub", optionJson hintedSubject),
    ("resources", setJson request.resources),
    ("dpop_jkt", optionJson dpopJkt),
    ("claims", request.claims.toJson),
    ("claims_locales", .arr (request.claimsLocales.map .str)),
    ("ui_locales", .arr (request.uiLocales.map .str)),
    ("authorization_details", .arr request.authorizationDetails),
    ("openid", .bool request.openid),
    ("grant_management_action",
      optionJson (request.grantManagement.map fun asked => asked.action.asStr)),
    ("grant_id", optionJson (request.grantManagement.bind GrantManagement.grantId))]

/-- The document a request is stored as. -/
def serialise (request : AuthorizationRequest)
    (signedResponseAlg hintedSubject dpopJkt : Option String) : Object :=
  Entries.collect (serialisedMembers request signedResponseAlg hintedSubject dpopJkt)

theorem lookup_serialise (req : AuthorizationRequest)
    (signedResponseAlg hintedSubject dpopJkt : Option String) (name : String) :
    lookup (serialise req signedResponseAlg hintedSubject dpopJkt) name =
      lookup (serialisedMembers req signedResponseAlg hintedSubject dpopJkt) name := by
  have hnms : ((serialisedMembers req signedResponseAlg hintedSubject dpopJkt).map
      Prod.fst).Pairwise (· ≠ ·) := by
    simp only [serialisedMembers, List.map_cons]
    decide
  exact lookup_collect (List.pairwise_map.1 hnms) name

/-- The preferences that the essential request for `acr` admits. -/
def requiredAcr (request : AuthorizationRequest) : List String :=
  let essential := request.claims.acr.filter (·.essential)
  request.acrValues.filter fun value =>
    essential.all fun claim => claim.values = [] ∨ claim.values.any (·.asStr = some value)

/-- The claims of a request for which the preferences are requirements. -/
def ipsieAcrClaims (request : AuthorizationRequest) : Except String Json :=
  let claims := request.claims.toJson
  if request.acrValues = [] then .ok claims
  else if requiredAcr request = [] then
    .error "requested ACR values conflict with the essential ACR claim"
  else
    .ok (claims.setMember "id_token" (((claims.member "id_token").getD .null).setMember "acr"
      (.obj [("essential", .bool true), ("values", .arr ((requiredAcr request).map .str))])))

/-- What is stored.  For a client of the identity-only profile the `acr_values` are
requirements. -/
def storedParameters (identityOnly : Bool) (request : AuthorizationRequest)
    (signedResponseAlg hintedSubject dpopJkt : Option String) : Except String Object := do
  let parameters := serialise request signedResponseAlg hintedSubject dpopJkt
  if identityOnly then do
    let claims ← ipsieAcrClaims request
    pure (Entries.insert parameters "claims" claims)
  else pure parameters

end AsteriusIdp
