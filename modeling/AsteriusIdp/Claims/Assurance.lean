import AsteriusIdp.Claims.Name

/-!
# Requests for single claims and for verified claims

One entry of a claims request says whether the claim is essential and which values are accepted
(`ClaimRequest`); a request for verified claims says under which trust framework which claims,
evidence and process reference are wanted (`IdaRequest`).  Both are read from a document and
written back in one canonical form, and both read back as they were written:

* `parseEntry_toJson` : an entry reads back as itself.
* `IdaRequest.parse_toJson` : so does every request for verified claims that was accepted.
-/

namespace AsteriusIdp

open Fallible Json Entries

/-- Why a claims request is refused. -/
inductive ClaimsRequestError where
  | tooLarge
  | malformed
  | notAnObject
  | sectionNotAnObject (member : String)
  | entryNotAnObject
  | tooDeep
  | reservedMemberName
  | tooManyClaims
  | unsupportedIdentityAssurance
  | unsupportedAdvancedClaims
  | advancedClaimsAborted
  deriving DecidableEq

/-! ### One claim -/

/-- One entry of a claims request. -/
structure ClaimRequest where
  essential : Bool
  /-- The values the client accepts. -/
  values : List Json
  deriving DecidableEq

namespace ClaimRequest

/-- A claim asked for without conditions. -/
def default : ClaimRequest := { essential := false, values := [] }

/-- The canonical form of an entry. -/
def toJson (request : ClaimRequest) : Json :=
  let members : Object := []
  let members :=
    if request.essential then Entries.insert members "essential" (.bool true) else members
  let members :=
    if request.values = [] then members
    else Entries.insert members "values" (.arr request.values)
  .obj members

end ClaimRequest

/-- The items of a member that is an array. -/
def listed (members : Object) (name : String) : List Json :=
  match Entries.lookup members name with
  | some (.arr items) => items
  | _ => []

/-- One individual claim request: `null` or an object. -/
def parseEntry : Json → Except ClaimsRequestError ClaimRequest
  | .null => .ok .default
  | .obj members => .ok
      { essential := Entries.lookup members "essential" = some (.bool true)
        values := (Entries.lookup members "value").toList ++ listed members "values" }
  | _ => .error .entryNotAnObject

theorem parseEntry_toJson (req : ClaimRequest) : parseEntry req.toJson = .ok req := by
  obtain ⟨essential, values⟩ := req
  cases essential <;> cases values <;> rfl

variable {req : ClaimRequest}

/-- The values an entry accepts are its `value` and the items of its `values`. -/
theorem mem_values_of_parseEntry {entry : Json} (h : parseEntry entry = .ok req) {v : Json}
    (hv : v ∈ req.values) :
    entry.member "value" = some v ∨
      ∃ items, entry.member "values" = some (.arr items) ∧ v ∈ items := by
  cases entry with
  | null => cases h; simp [ClaimRequest.default] at hv
  | obj =>
    cases h
    rcases List.mem_append.1 hv with hv | hv
    · exact .inl (Option.mem_toList.1 hv)
    · right
      unfold listed at hv
      split at hv
      · next items heq => exact ⟨items, heq, hv⟩
      · simp at hv
  | _ => cases h

theorem mem_values_of_value {entry : Json} (h : parseEntry entry = .ok req) {v : Json}
    (hv : entry.member "value" = some v) : v ∈ req.values := by
  cases entry with
  | obj =>
    cases h
    exact List.mem_append_left _ (Option.mem_toList.2 hv)
  | _ => cases hv

theorem ClaimRequest.toJson_eq (req : ClaimRequest) :
    req.toJson = .obj ((if req.essential then [("essential", .bool true)] else []) ++
      if req.values = [] then [] else [("values", .arr req.values)]) := by
  obtain ⟨essential, values⟩ := req
  cases essential <;> cases values <;> rfl

/-- How deep an entry nests is decided by the values it accepts. -/
theorem ClaimRequest.depth_toJson_le {n : ℕ} :
    req.toJson.depth ≤ n + 3 ↔ ∀ v ∈ req.values, v.depth ≤ n + 1 := by
  have hval : (Json.arr req.values).depth ≤ n + 2 ↔ ∀ v ∈ req.values, v.depth ≤ n + 1 :=
    depth_arr_le
  have hbo : (Json.bool true).depth ≤ n + 2 := by simp [depth]
  rw [toJson_eq, depth_obj_le]
  by_cases hnil : req.values = []
  · cases req.essential <;> simp [hnil, hbo]
  · cases req.essential <;> simp [hnil, hbo, hval]

/-- An entry whose values are plain is plain. -/
theorem ClaimRequest.plain_toJson {n : ℕ} (h : ∀ v ∈ req.values, Plain (n + 1) v) :
    Plain (n + 3) req.toJson := by
  have hess : Plain (n + 3)
      (.obj (if req.essential then insert [] "essential" (.bool true) else [])) := by
    split_ifs
    · exact (plain_obj_nil _).insert (by decide) (plain_bool _ _)
    · exact plain_obj_nil _
  unfold toJson
  by_cases hnil : req.values = []
  · simpa [hnil] using hess
  · simp only [hnil]
    exact hess.insert (by decide) (plain_arr.2 h)

/-! ### Verified claims -/

/-- The kinds of evidence that can be asked for, in the order of their names. -/
inductive EvidenceType where
  | document
  | electronicRecord
  | electronicSignature
  | vouch
  deriving DecidableEq

namespace EvidenceType

/-- The types. -/
def all : List EvidenceType := [document, electronicRecord, electronicSignature, vouch]

/-- Its wire name. -/
def asStr : EvidenceType → String
  | document => "document"
  | electronicRecord => "electronic_record"
  | electronicSignature => "electronic_signature"
  | vouch => "vouch"

/-- The type of a name. -/
def parse (kind : String) : Option EvidenceType := all.find? (·.asStr = kind)

theorem mem_all (kind : EvidenceType) : kind ∈ all := by cases kind <;> decide

@[simp] theorem parse_asStr (kind : EvidenceType) : parse kind.asStr = some kind := by
  cases kind <;> decide

theorem asStr_injective : Function.Injective asStr := fun a b h =>
  Option.some.inj ((parse_asStr a).symm.trans (h ▸ parse_asStr b))

end EvidenceType

/-- A request for verified claims. -/
structure IdaRequest where
  /-- The trust framework, or any that the tenant permits. -/
  framework : Option String
  /-- The claims, each with its hint that it is essential. -/
  claims : Entries VerifiedClaimName Bool
  evidenceTypes : Finset EvidenceType
  /-- The reference of the verification process is asked for. -/
  verificationProcess : Bool
  deriving DecidableEq

namespace IdaRequest

/-- The name of a trust framework. -/
def isFramework (value : String) : Bool :=
  value ≠ "" && value.utf8ByteSize ≤ 128 &&
    value.toList.all fun c => c.isAlphanum || ['-', '_', '.', ':', '/'].contains c

/-- The kind of one piece of evidence. -/
def parseEvidence (entry : Json) : Option EvidenceType := do
  let object ← entry.asObject
  if object.length ≠ 1 then none
  else
    let constraint ← (Entries.lookup object "type").bind asObject
    if constraint.length ≠ 1 then none
    else ((Entries.lookup constraint "value").bind asStr).bind EvidenceType.parse

/-- The kinds of evidence a verification names. -/
def parseEvidenceTypes : Option Json → Option (Finset EvidenceType)
  | none => some ∅
  | some (.arr entries) =>
    if entries = [] ∨ 4 < entries.length then none
    else (entries.mapM parseEvidence).map List.toFinset
  | some _ => none

/-- The trust framework a verification names. -/
def parseFramework : Option Json → Option (Option String)
  | some .null => some none
  | some (.obj constraint) =>
    if constraint.length = 1 then
      match (Entries.lookup constraint "value").bind asStr with
      | some value => if isFramework value then some (some value) else none
      | none => none
    else none
  | _ => none

/-- Is the process reference asked for? -/
def parseProcess : Option Json → Option Bool
  | none => some false
  | some .null => some true
  | some _ => none

/-- One requested claim and its hint. -/
def parseClaim (m : String × Json) : Option (VerifiedClaimName × Bool) := do
  let name ← VerifiedClaimName.parse m.1
  match m.2 with
  | .null => some (name, false)
  | .obj [] => some (name, false)
  | .obj [(field, value)] => if field = "essential" then (asBool value).map (name, ·) else none
  | _ => none

/-- What the members of a `verification` object may be called. -/
def verificationMembers : List String := ["trust_framework", "evidence", "verification_process"]

/-- A request for verified claims, as far as it is supported. -/
def read (value : Json) : Option IdaRequest := do
  let object ← value.asObject
  if object.length ≠ 2 then none
  else
    let verification ← (Entries.lookup object "verification").bind asObject
    if ¬(1 ≤ verification.length ∧ verification.length ≤ 3) ∨
    ∃ m ∈ verification, m.1 ∉ verificationMembers then none
    else
      let verificationProcess ← parseProcess (Entries.lookup verification "verification_process")
      let evidenceTypes ← parseEvidenceTypes (Entries.lookup verification "evidence")
      let framework ← parseFramework (Entries.lookup verification "trust_framework")
      let requested ← (Entries.lookup object "claims").bind asObject
      if requested = [] ∨ 32 < requested.length then none
      else
        let claims ← requested.mapM parseClaim
        some { framework, claims := Entries.collect claims, evidenceTypes, verificationProcess }

/-- Everything that is not supported is one error. -/
def parse (value : Json) : Except ClaimsRequestError IdaRequest :=
  okOr (read value) .unsupportedIdentityAssurance

/-- The canonical `verification` object. -/
def verificationJson (request : IdaRequest) : Object :=
  let verification : Object := []
  let verification := Entries.insert verification "trust_framework"
    (match request.framework with
      | none => .null
      | some value => .obj [("value", .str value)])
  let verification :=
    if request.verificationProcess then Entries.insert verification "verification_process" .null
    else verification
  if request.evidenceTypes = ∅ then verification
  else Entries.insert verification "evidence"
    (.arr ((EvidenceType.all.filter (· ∈ request.evidenceTypes)).map fun kind =>
      .obj [("type", .obj [("value", .str kind.asStr)])]))

/-- The canonical hint of one claim. -/
def essentialJson (essential : Bool) : Json :=
  if essential then .obj [("essential", .bool true)] else .null

/-- The canonical form of a request. -/
def toJson (request : IdaRequest) : Json :=
  let claims := Entries.collect
    (Entries.mapEntries VerifiedClaimName.raw (fun _ => essentialJson) request.claims)
  .obj (Entries.collect
    [("verification", .obj request.verificationJson), ("claims", .obj claims)])

/-! ### What is accepted, and that it reads back -/

/-- What every accepted request meets. -/
structure Accepted (request : IdaRequest) : Prop where
  sorted : Entries.Sorted request.claims
  nonempty : request.claims ≠ []
  few : request.claims.length ≤ 32
  framework : ∀ value, request.framework = some value → isFramework value = true

theorem isFramework_of_parseFramework {value : Option Json} {framework : Option String}
    (h : parseFramework value = some framework) :
    ∀ name, framework = some name → isFramework name = true := by
  unfold parseFramework at h
  split at h
  · cases h
    simp
  · split_ifs at h
    split at h
    · split_ifs at h with hfw
      cases h
      rintro _ ⟨⟩
      exact hfw
    · cases h
  · cases h

variable {req : IdaRequest}

theorem accepted_of_parse {value : Json} (h : parse value = .ok req) : req.Accepted := by
  simp only [parse, okOr_ok, read, Option.bind_eq_bind, Option.bind_eq_some_iff] at h
  obtain ⟨_, -, h⟩ := h
  split_ifs at h
  simp only [Option.bind_eq_some_iff] at h
  obtain ⟨_, -, h⟩ := h
  split_ifs at h
  simp only [Option.bind_eq_some_iff] at h
  obtain ⟨_, -, _, -, _, hfw, _, -, h⟩ := h
  split_ifs at h with hsz
  simp only [Option.bind_eq_some_iff, Option.some.injEq] at h
  obtain ⟨claims, hcls, rfl⟩ := h
  have hlen := (mapM_eq_some.1 hcls).length_eq
  simp only [not_or, not_lt] at hsz
  refine ⟨Sorted.collect claims, ?_, ?_, isFramework_of_parseFramework hfw⟩
  · refine collect_ne_nil fun hnil => hsz.1 ?_
    rwa [hnil, List.length_nil, List.length_eq_zero_iff] at hlen
  · exact (length_collect_le claims).trans (hlen ▸ hsz.2)

theorem lookup_verificationJson (req : IdaRequest) (name : String) :
    lookup req.verificationJson name =
      if name = "evidence" then
        if req.evidenceTypes = ∅ then none
        else some (.arr ((EvidenceType.all.filter (· ∈ req.evidenceTypes)).map fun kind =>
          .obj [("type", .obj [("value", .str kind.asStr)])]))
      else if name = "verification_process" then
        if req.verificationProcess then some .null else none else if name = "trust_framework" then
        some (req.framework.elim .null fun value => .obj [("value", .str value)]) else none := by
  unfold verificationJson
  cases req.framework <;> split_ifs <;> simp_all [lookup_insert]

theorem mem_verificationMembers {m : String × Json} (h : m ∈ req.verificationJson) :
    m.1 ∈ verificationMembers := by
  have hso : ∃ v, (m.1, v) ∈ req.verificationJson := ⟨m.2, h⟩
  rw [← isSome_lookup_iff, lookup_verificationJson] at hso
  by_contra hnot
  simp only [verificationMembers, List.mem_cons, List.not_mem_nil, not_or] at hnot
  simp [hnot] at hso

theorem parseProcess_verificationJson (req : IdaRequest) :
    parseProcess (lookup req.verificationJson "verification_process") =
      some req.verificationProcess := by
  rw [lookup_verificationJson]
  cases req.verificationProcess <;> rfl

theorem parseFramework_verificationJson (h : req.Accepted) :
    parseFramework (lookup req.verificationJson "trust_framework") = some req.framework := by
  rw [lookup_verificationJson]
  cases hfw : req.framework with
  | none => rfl
  | some value => simp [parseFramework, h.framework value hfw, lookup_cons, asStr]

/-- Every kind of evidence reads back, and the set of them with it. -/
theorem parseEvidenceTypes_verificationJson (req : IdaRequest) :
    parseEvidenceTypes (lookup req.verificationJson "evidence") = some req.evidenceTypes := by
  rw [lookup_verificationJson, if_pos rfl]
  split_ifs with hemp
  · rw [hemp]
    rfl
  · have hset : (EvidenceType.all.filter (· ∈ req.evidenceTypes)).toFinset =
        req.evidenceTypes := by
      ext kind
      simp [EvidenceType.mem_all]
    have hpar : ((EvidenceType.all.filter (· ∈ req.evidenceTypes)).map fun kind =>
        (.obj [("type", .obj [("value", .str kind.asStr)])] : Json)).mapM parseEvidence =
        some (EvidenceType.all.filter (· ∈ req.evidenceTypes)) := by
      rw [mapM_eq_some, List.forall₂_map_left_iff, List.forall₂_same]
      simp [parseEvidence, asObject, asStr, lookup_cons]
    have hlen : (EvidenceType.all.filter (· ∈ req.evidenceTypes)).length ≤ 4 :=
      List.length_filter_le _ _
    have hnil : EvidenceType.all.filter (· ∈ req.evidenceTypes) ≠ [] := by
      intro hnil
      rw [← hset, hnil] at hemp
      exact hemp rfl
    simp [parseEvidenceTypes, hpar, hset, hlen, hnil]

/-- The members of the canonical `claims` object. -/
def claimsJson (request : IdaRequest) : Object :=
  Entries.mapEntries VerifiedClaimName.raw (fun _ => essentialJson) request.claims

theorem Accepted.sorted_claimsJson (h : req.Accepted) : Sorted req.claimsJson :=
  h.sorted.mapEntries fun _ _ hlt => hlt

theorem mapM_parseClaim_claimsJson (req : IdaRequest) :
    req.claimsJson.mapM parseClaim = some req.claims := by
  rw [mapM_eq_some, claimsJson, mapEntries, List.forall₂_map_left_iff, List.forall₂_same]
  rintro ⟨name, essential⟩ -
  have hnm : VerifiedClaimName.parse name.raw = some name :=
    VerifiedClaimName.parse_eq_some.2 rfl
  cases essential <;> simp [parseClaim, essentialJson, hnm]

/-- The canonical form, with its objects in the order of their members. -/
theorem Accepted.toJson_eq (h : req.Accepted) :
    req.toJson =
      .obj [("claims", .obj req.claimsJson), ("verification", .obj req.verificationJson)] := by
  have hcls : collect
      (mapEntries VerifiedClaimName.raw (fun _ => essentialJson) req.claims) =
      req.claimsJson := h.sorted_claimsJson.collect_eq
  rw [toJson, hcls, collect_pair (by decide)]

theorem length_verificationJson (req : IdaRequest) :
    1 ≤ req.verificationJson.length ∧ req.verificationJson.length ≤ 3 := by
  unfold verificationJson
  all_goals
    constructor
    · grind [Entries.insert]
    · grind [length_insert_le]

/-- **A request for verified claims reads back as it was accepted.** -/
theorem Accepted.parse_toJson (h : req.Accepted) : parse req.toJson = .ok req := by
  have hms : ¬∃ m ∈ req.verificationJson, m.1 ∉ verificationMembers :=
    fun ⟨m, hm, hnot⟩ => hnot (mem_verificationMembers hm)
  have hcls : req.claimsJson ≠ [] ∧ req.claimsJson.length ≤ 32 := by
    simpa [claimsJson, mapEntries] using And.intro h.nonempty h.few
  simp [parse, read, h.toJson_eq, asObject, lookup_cons, length_verificationJson,
    hms, parseProcess_verificationJson, parseFramework_verificationJson h,
    parseEvidenceTypes_verificationJson, hcls, mapM_parseClaim_claimsJson,
    h.sorted.collect_eq]

theorem plain_verificationJson (req : IdaRequest) : Plain 5 (.obj req.verificationJson) := by
  have hfw : Plain 4 (match req.framework with
      | none => .null
      | some value => .obj [("value", .str value)] : Json) := by
    cases req.framework with
    | none => exact plain_null _
    | some => exact (plain_obj_nil 3).insert (by decide) (plain_str _ _)
  have hvf : Plain 5 (.obj (insert [] "trust_framework" (match req.framework with
      | none => .null
      | some value => .obj [("value", .str value)]))) :=
    (plain_obj_nil 4).insert (by decide) hfw
  have hev : ∀ kinds : List EvidenceType, Plain 4 (.arr (kinds.map fun kind =>
      .obj [("type", .obj [("value", .str kind.asStr)])])) := by
    intro _
    refine plain_arr.2 (List.forall_mem_map.2 fun kind _ => ?_)
    exact (plain_obj_nil 2).insert (by decide)
      ((plain_obj_nil 1).insert (by decide) (plain_str _ _))
  unfold verificationJson
  split_ifs
  · exact hvf.insert (by decide) (plain_null _)
  · exact (hvf.insert (by decide) (plain_null _)).insert (by decide) (hev _)
  · exact hvf
  · exact hvf.insert (by decide) (hev _)

/-- The canonical form nests six deep, as the source's comment on the bound has it. -/
theorem plain_toJson (req : IdaRequest) : Plain 6 req.toJson := by
  have hess : ∀ essential, Plain 4 (essentialJson essential) := by
    rintro (_ | _)
    · exact plain_null _
    · exact (plain_obj_nil 3).insert (by decide) (plain_bool _ _)
  have hcls : Plain 5 (.obj (collect
      (mapEntries VerifiedClaimName.raw (fun _ => essentialJson) req.claims))) :=
    plain_obj_collect
      (List.forall_mem_map.2 fun m _ => ⟨m.1.isSerdeJsonSentinel_raw, hess m.2⟩)
  refine plain_obj_collect ?_
  simp only [List.mem_cons, List.not_mem_nil, or_false, forall_eq_or_imp, forall_eq]
  exact ⟨⟨by decide, req.plain_verificationJson⟩, by decide, hcls⟩

end IdaRequest

end AsteriusIdp
