import AsteriusIdp.Claims.AdvancedForm

/-!
# Claims requests

A claims request names claims for the ID token and claims for the UserInfo endpoint.  The text a
client sends is read once (`ClaimsRequest.parse`) and what was understood is stored in one
canonical form (`ClaimsRequest.toJson`), which the same parser reads back for the life of the
grant (`ClaimsRequest.fromJson`).

Canonical form and document do not have the same shape: `acr` and the role claims always stand
under `id_token`, and the two spellings `value` and `values` are one list.
-/

namespace AsteriusIdp

open Fallible Json Entries

/-- A parsed claims request. -/
structure ClaimsRequest where
  idToken : Entries ReleasableClaim ClaimRequest
  userinfo : Entries ReleasableClaim ClaimRequest
  /-- Asked of the authentication, not of the user record. -/
  acr : Option ClaimRequest
  /-- The role claims asked for in the ID token. -/
  roleClaims : Finset RoleClaim
  idaIdToken : Option IdaRequest
  idaUserinfo : Option IdaRequest
  asc : Option AscRequest
  deriving DecidableEq

/-! ### Sections -/

/-- A member that is neither a request for verified claims nor an alias. -/
def isPlainName (name : String) : Bool := name ≠ "verified_claims" && !Text.startsWith ':' name

/-- The claims among the entries of a section; a name that is not understood is ignored. -/
def claimsOf (entries : Entries String ClaimRequest) : Entries ReleasableClaim ClaimRequest :=
  Entries.collect (entries.filterMap fun e =>
    if e.1 = "acr" ∨ (RoleClaim.parse e.1).isSome then none
    else (ReleasableClaim.parse e.1).map (·, e.2))

/-- The role claims among the entries of a section. -/
def roleClaimsOf (entries : Entries String ClaimRequest) : Finset RoleClaim :=
  (entries.filterMap fun e => if e.1 = "acr" then none else RoleClaim.parse e.1).toFinset

namespace ClaimsRequest

/-- The longest text, in bytes. -/
def maxLen : ℕ := 4096

/-- How deep a document may nest. -/
def maxDepth : ℕ := 8

/-- The most members of one section. -/
def maxClaims : ℕ := 64

/-- A request that asks for nothing. -/
def default : ClaimsRequest :=
  { idToken := [], userinfo := [], acr := none, roleClaims := ∅, idaIdToken := none,
    idaUserinfo := none, asc := none }

/-- The request for verified claims of a section. -/
def parseIdaSection (root : Object) (member : String) :
    Except ClaimsRequestError (Option IdaRequest) :=
  match Entries.lookup (sectionOf root member) "verified_claims" with
  | none => .ok none
  | some value => some <$> IdaRequest.parse value

/-- One section.  Of two requests for `acr` the first one counts. -/
def parseSection (root : Object) (member : String) (acr : Option ClaimRequest)
    (roleClaims : Finset RoleClaim) :
    Except ClaimsRequestError
      (Entries ReleasableClaim ClaimRequest × Option ClaimRequest × Finset RoleClaim) :=
  match Entries.lookup root member with
  | none | some .null => .ok ([], acr, roleClaims)
  | some (.obj members) => do
    refuseIf (maxClaims < members.length) .tooManyClaims
    let entries ← mapValuesM parseEntry (members.filter fun m => isPlainName m.1)
    pure (claimsOf entries, acr.or (Entries.lookup entries "acr"),
      roleClaims ∪ roleClaimsOf entries)
  | some _ => .error (.sectionNotAnObject member)

/-- The request a document makes.  The role claims asked for under `userinfo` are dropped. -/
def readRoot (root : Object) : Except ClaimsRequestError ClaimsRequest := do
  let idaIdToken ← parseIdaSection root "id_token"
  let idaUserinfo ← parseIdaSection root "userinfo"
  let asc ← AscRequest.parse root
  let (idToken, acr, roleClaims) ← parseSection root "id_token" none ∅
  let (userinfo, acr, _) ← parseSection root "userinfo" acr ∅
  pure { idToken, userinfo, acr, roleClaims, idaIdToken, idaUserinfo, asc }

/-! ### The canonical form -/

/-- One section of the canonical form. -/
def sectionJson (claims : Entries ReleasableClaim ClaimRequest) : Object :=
  Entries.collect (Entries.mapEntries ReleasableClaim.asStr (fun _ => ClaimRequest.toJson) claims)

/-- Add the request for verified claims to a section. -/
def addIda (members : Object) : Option IdaRequest → Object
  | some request => Entries.insert members "verified_claims" request.toJson
  | none => members

/-- The `id_token` section, without its aliases. -/
def idTokenJson (request : ClaimsRequest) : Object :=
  let members := sectionJson request.idToken
  let members :=
    match request.acr with
    | some acr => Entries.insert members "acr" acr.toJson
    | none => members
  let members := Entries.insertAll members
    ((RoleClaim.all.filter (· ∈ request.roleClaims)).map fun claim => (claim.asStr, .obj []))
  addIda members request.idaIdToken

/-- The `userinfo` section, without its aliases. -/
def userinfoJson (request : ClaimsRequest) : Object :=
  addIda (sectionJson request.userinfo) request.idaUserinfo

/-- The canonical form of a request. -/
def toJson (request : ClaimsRequest) : Json :=
  let root : Object := Entries.insert [] "id_token" (.obj request.idTokenJson)
  let root := Entries.insert root "userinfo" (.obj request.userinfoJson)
  match request.asc with
  | some asc => .obj (asc.addJson root)
  | none => .obj root

/-! ### Reading texts -/

variable (serde : Serde)

/-- Read the text of a claims request. -/
def parse (raw : String) : Except ClaimsRequestError ClaimsRequest := do
  refuseIf (maxLen < raw.utf8ByteSize) .tooLarge
  let document ← okOr (serde.fromStr raw) .malformed
  refuseIf (maxDepth < document.depth) .tooDeep
  refuseIf document.namesASerdeJsonSentinel .reservedMemberName
  let root ← okOr document.asObject .notAnObject
  let request ← readRoot root
  refuseIf (maxLen < (serde.toString request.toJson).utf8ByteSize) .tooLarge
  pure request

/-- Read a stored request back. -/
def fromJson (value : Json) : Except ClaimsRequestError ClaimsRequest :=
  parse serde (serde.toString value)

end ClaimsRequest

/-! ### What a section asks for -/

section Entries

variable {es : Entries String ClaimRequest}

theorem roleClaim_parse_eq_none {raw : String} (h : ReleasableClaim.isComputed raw = false)
    (hbs : baseName raw = raw) : RoleClaim.parse raw = none := by
  by_contra hne
  have hso : (RoleClaim.parse (baseName raw)).isSome := by
    rw [hbs]
    exact Option.isSome_iff_ne_none.2 hne
  simp [ReleasableClaim.isComputed, hso] at h

/-- A claim that may be released is not a role claim. -/
theorem roleClaim_parse_asStr (claim : ReleasableClaim)
    (h : ReleasableClaim.isComputed claim.asStr = false) : RoleClaim.parse claim.asStr = none := by
  by_contra hne
  obtain ⟨role, hrl⟩ := Option.ne_none_iff_exists'.1 hne
  have hnm := RoleClaim.parse_eq_some.1 hrl
  have hbs : baseName claim.asStr = claim.asStr := by
    rw [← hnm]
    cases role <;> decide
  exact hne (roleClaim_parse_eq_none h hbs)

theorem asStr_ne_acr (claim : ReleasableClaim) : claim.asStr ≠ "acr" :=
  claim.asStr_ne_of_mem_serverIssued (by decide) (by decide)

theorem sorted_claimsOf (es : Entries String ClaimRequest) : Sorted (claimsOf es) :=
  Sorted.collect _

/-- **The claims of a section**: those of its names that may be released. -/
theorem lookup_claimsOf (h : Sorted es) (claim : ReleasableClaim) :
    lookup (claimsOf es) claim =
      if ReleasableClaim.isComputed claim.asStr then none else lookup es claim.asStr := by
  have hmem : ∀ req, (claim, req) ∈ (es.filterMap fun e =>
      if e.1 = "acr" ∨ (RoleClaim.parse e.1).isSome then none
      else (ReleasableClaim.parse e.1).map (·, e.2)) ↔
      ReleasableClaim.isComputed claim.asStr = false ∧ (claim.asStr, req) ∈ es := by
    intro req
    simp only [List.mem_filterMap, Option.ite_none_left_eq_some, Option.map_eq_some_iff,
      ReleasableClaim.parse_eq_some, Prod.mk.injEq]
    constructor
    · rintro ⟨⟨name, _⟩, he, -, _, ⟨rfl, hcmp⟩, rfl, rfl⟩
      exact ⟨hcmp, he⟩
    · rintro ⟨hcmp, he⟩
      refine ⟨_, he, ?_, claim, ⟨rfl, hcmp⟩, rfl, rfl⟩
      simp [asStr_ne_acr, roleClaim_parse_asStr claim hcmp]
  have hdi : (es.filterMap fun e =>
      if e.1 = "acr" ∨ (RoleClaim.parse e.1).isSome then none
      else (ReleasableClaim.parse e.1).map (·, e.2)).Pairwise fun e e' => e.1 ≠ e'.1 := by
    refine List.Pairwise.filterMap _ ?_ h.pairwise_ne
    rintro ⟨_, _⟩ ⟨_, _⟩ hne _ he _ he'
    simp only [Option.ite_none_left_eq_some, Option.map_eq_some_iff,
      ReleasableClaim.parse_eq_some] at he he'
    obtain ⟨-, claim, ⟨rfl, -⟩, rfl⟩ := he
    obtain ⟨-, _, ⟨rfl, -⟩, rfl⟩ := he'
    exact fun heq => hne (congrArg ReleasableClaim.asStr heq)
  rw [claimsOf, lookup_collect hdi]
  ext req
  rw [show (lookup _ claim = some req ↔ _) from
    ⟨mem_of_lookup, lookup_of_mem hdi⟩, hmem]
  cases ReleasableClaim.isComputed claim.asStr <;> simp [h.lookup_iff_mem]

theorem mem_roleClaimsOf {claim : RoleClaim} :
    claim ∈ roleClaimsOf es ↔ (lookup es claim.asStr).isSome := by
  have hacr : claim.asStr ≠ "acr" := by cases claim <;> decide
  simp only [roleClaimsOf, List.mem_toFinset, List.mem_filterMap, Option.ite_none_left_eq_some,
    RoleClaim.parse_eq_some, isSome_lookup_iff]
  grind

theorem lookup_plainEntries {ms : Object}
    (h : mapValuesM parseEntry (ms.filter fun m => isPlainName m.1) = .ok es) (name : String) :
    lookup es name =
      (if isPlainName name then lookup ms name else none).bind
        fun v => (parseEntry v).toOption := by
  rw [lookup_mapValuesM h, lookup_filter (fun name => isPlainName name)]

end Entries

end AsteriusIdp
