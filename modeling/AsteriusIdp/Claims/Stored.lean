import AsteriusIdp.Claims.Section

/-!
# Stored claims requests

What an accepted request was read from (`ClaimsRequest.ReadFrom`) and the document it is stored
as, section by section (`ClaimsRequest.toJson_eq`).  A stored document whose sections keep to the
bound on their members is read as the request it was written from
(`ClaimsRequest.Accepted.readRoot_rootJson`), and nothing else.
-/

namespace AsteriusIdp

open Fallible Json Entries

namespace ClaimsRequest

/-! ### What was read -/

/-- The entries of an accepted section. -/
structure SectionEntries (root : Object) (member : String)
    (entries : Entries String ClaimRequest) : Prop where
  shape : ∀ v, Entries.lookup root member = some v → v = .null ∨ ∃ members, v = .obj members
  few : (sectionOf root member).length ≤ maxClaims
  read : mapValuesM parseEntry ((sectionOf root member).filter fun m => isPlainName m.1) =
    .ok entries

variable {member : String}

theorem sectionOf_eq {root ms : Object}
    (h : lookup root member = some (.obj ms)) : sectionOf root member = ms := by
  simp [sectionOf, h, asObject]

theorem parseSection_ok {root : Object} {acr : Option ClaimRequest} {roleClaims : Finset RoleClaim}
    {result : Entries ReleasableClaim ClaimRequest × Option ClaimRequest × Finset RoleClaim} :
    parseSection root member acr roleClaims = .ok result ↔
      ∃ es, SectionEntries root member es ∧
      (claimsOf es, acr.or (lookup es "acr"), roleClaims ∪ roleClaimsOf es) = result := by
  -- a section that is missing or null counts as one without members
  have hemp : ∀ {o : Option Json}, lookup root member = o → (o = none ∨ o = some .null) →
      (.ok ([], acr, roleClaims) = (.ok result : Except ClaimsRequestError _) ↔
        ∃ es, SectionEntries root member es ∧
        (claimsOf es, acr.or (lookup es "acr"),
          roleClaims ∪ roleClaimsOf es) = result) := by
    intro _ hlk ho
    have hsec : sectionOf root member = [] := by
      rcases ho with rfl | rfl <;> simp [sectionOf, hlk, asObject]
    rw [Except.ok.injEq]
    constructor
    · rintro rfl
      refine ⟨[], ⟨?_, by simp [hsec], by simp only [hsec]; rfl⟩, by
        simp [claimsOf, roleClaimsOf, Entries.collect, insertAll]⟩
      rintro v hv
      rw [hlk] at hv
      rcases ho with rfl | rfl
      · cases hv
      · exact .inl (Option.some.inj hv).symm
    · rintro ⟨es, hes, rfl⟩
      have hrd := hes.read
      simp only [hsec] at hrd
      cases hrd
      simp [claimsOf, roleClaimsOf, Entries.collect, insertAll]
  unfold parseSection
  split
  · next hlk => exact hemp hlk (.inl rfl)
  · next hlk => exact hemp hlk (.inr rfl)
  · next ms hlk =>
    have hsec := sectionOf_eq hlk
    simp only [bind_ok, refuseIf_ok, exists_const, pure_ok, not_lt]
    constructor
    · rintro ⟨hfew, es, hrd, rfl⟩
      refine ⟨es, ⟨?_, hsec ▸ hfew, hsec ▸ hrd⟩, rfl⟩
      rintro v hv
      exact .inr ⟨ms, (Option.some.inj (hlk.symm.trans hv)).symm⟩
    · rintro ⟨es, hes, rfl⟩
      exact ⟨hsec ▸ hes.few, es, hsec ▸ hes.read, rfl⟩
  · next v hnu hobj hlk =>
    refine iff_of_false (by simp) ?_
    rintro ⟨_, hes, -⟩
    rcases hes.shape v hlk with rfl | ⟨ms, rfl⟩
    · exact hnu rfl
    · exact hobj ms rfl

/-- **What a request was read from**: a document and the entries of its two sections. -/
structure ReadFrom (request : ClaimsRequest) (root : Object)
    (idEntries userEntries : Entries String ClaimRequest) : Prop where
  id : SectionEntries root "id_token" idEntries
  user : SectionEntries root "userinfo" userEntries
  idaIdToken : parseIdaSection root "id_token" = .ok request.idaIdToken
  idaUserinfo : parseIdaSection root "userinfo" = .ok request.idaUserinfo
  asc : AscRequest.parse root = .ok request.asc
  idToken : request.idToken = claimsOf idEntries
  userinfo : request.userinfo = claimsOf userEntries
  acr : request.acr = (Entries.lookup idEntries "acr").or (Entries.lookup userEntries "acr")
  roleClaims : request.roleClaims = roleClaimsOf idEntries

theorem readRoot_ok {root : Object} {req : ClaimsRequest} :
    readRoot root = .ok req ↔ ∃ idEntries userEntries, ReadFrom req root idEntries userEntries := by
  simp only [readRoot, bind_ok, pure_ok, parseSection_ok]
  constructor
  · rintro ⟨idaIdToken, hida, idaUserinfo, hidaU, asc, hasc, _, ⟨idEntries, hid, rfl⟩, _,
      ⟨userEntries, hu, rfl⟩, rfl⟩
    exact ⟨idEntries, userEntries, hid, hu, hida, hidaU, hasc, rfl, rfl, by simp,
      by simp⟩
  · rintro ⟨idEntries, userEntries, h⟩
    refine ⟨_, h.idaIdToken, _, h.idaUserinfo, _, h.asc, _, ⟨idEntries, h.id, rfl⟩, _,
      ⟨userEntries, h.user, rfl⟩, ?_⟩
    obtain ⟨_, _, _, _, _, _, _⟩ := req
    obtain ⟨-, -, -, -, -, rfl, rfl, rfl, rfl⟩ := h
    simp

/-! ### The stored document -/

/-- What the stored `id_token` section holds. -/
def idContent (request : ClaimsRequest) : Content :=
  { claims := request.idToken, acr := request.acr, roles := request.roleClaims
    ida := request.idaIdToken, aliases := (request.asc.map AscRequest.idToken).getD [] }

/-- What the stored `userinfo` section holds: `acr` and the role claims stand in the other. -/
def userContent (request : ClaimsRequest) : Content :=
  { claims := request.userinfo, acr := none, roles := ∅
    ida := request.idaUserinfo, aliases := (request.asc.map AscRequest.userinfo).getD [] }

/-- The members of the stored document. -/
def rootJson (request : ClaimsRequest) : Object :=
  (request.asc.map fun asc => ("_asc", Json.obj asc.ascJson)).toList ++
    [("id_token", .obj request.idContent.json), ("userinfo", .obj request.userContent.json)]

theorem toJson_eq (req : ClaimsRequest) : req.toJson = .obj req.rootJson := by
  have hid : ¬("userinfo" : String) < "id_token" := by decide
  have hasc : ("_asc" : String) < "id_token" := by decide
  have hasc' : ¬("id_token" : String) < "_asc" := by decide
  have hu' : ¬("userinfo" : String) < "_asc" := by decide
  have hu : req.userContent.json =
      insertAll req.userinfoJson (AscRequest.aliasesJson req.userContent.aliases) := by
    have hrol : req.userContent.rolesJson = [] := by
      simp [Content.rolesJson, userContent]
    rfl
  have hidT : req.idContent.json =
      insertAll req.idTokenJson (AscRequest.aliasesJson req.idContent.aliases) := rfl
  rw [rootJson, hu, hidT]
  obtain ⟨_, _, _, _, _, _, asc⟩ := req
  cases asc with
  | none =>
    rfl
  | some =>
    simp [toJson, AscRequest.addJson, AscRequest.addAliases, Entries.insert, lookup_cons,
      hid, hasc, hasc', hu', idContent, userContent]

variable {req : ClaimsRequest} {root : Object}

theorem sorted_rootJson (req : ClaimsRequest) : Sorted req.rootJson := by
  have hks : (req.rootJson.map Prod.fst).Pairwise (· < ·) := by
    cases hasc : req.asc <;>
      simp only [rootJson, hasc, Option.map_none, Option.map_some, Option.toList_none,
        Option.toList_some, List.nil_append, List.cons_append, List.map_cons] <;>
      decide
  exact List.pairwise_map.1 hks

theorem sectionOf_rootJson_id (req : ClaimsRequest) :
    sectionOf req.rootJson "id_token" = req.idContent.json := by
  cases hasc : req.asc <;> simp [rootJson, hasc, sectionOf, lookup_cons, asObject]

theorem sectionOf_rootJson_user (req : ClaimsRequest) :
    sectionOf req.rootJson "userinfo" = req.userContent.json := by
  cases hasc : req.asc <;> simp [rootJson, hasc, sectionOf, lookup_cons, asObject]

/-! ### Reading the stored document -/

/-- What every accepted request meets. -/
structure Accepted (request : ClaimsRequest) : Prop where
  id : request.idContent.Accepted
  user : request.userContent.Accepted
  asc : ∀ asc, request.asc = some asc → asc.Accepted

theorem parseIdaSection_ok {ida : Option IdaRequest} (h : parseIdaSection root member = .ok ida) :
    (ida.isSome ↔ contains (sectionOf root member) "verified_claims") ∧
      ∀ req, ida = some req → req.Accepted := by
  unfold parseIdaSection at h
  split at h
  · next hlk =>
    cases h
    simp [contains, hlk]
  · next value hlk =>
    obtain ⟨_, hpar, rfl⟩ := map_ok.1 h
    refine ⟨by simp [contains, hlk], ?_⟩
    rintro _ ⟨⟩
    exact IdaRequest.accepted_of_parse hpar

variable {content : Content}

theorem parseIdaSection_of_json (h : content.Accepted)
    (hsec : sectionOf root member = content.json) :
    parseIdaSection root member = .ok content.ida := by
  rw [parseIdaSection, hsec, Content.lookup_json_ida h]
  cases hida : content.ida with
  | none => rfl
  | some req => simp [(h.ida req hida).parse_toJson]

theorem SectionEntries.of_json (h : content.Accepted)
    (hlk : lookup root member = some (.obj content.json)) (hfew : content.json.length ≤ maxClaims) :
    ∃ es, SectionEntries root member es ∧ claimsOf es = content.claims ∧
    lookup es "acr" = content.acr ∧ roleClaimsOf es = content.roles := by
  obtain ⟨es, hrd, hcls, hacr, hrol⟩ := h.entries
  have hsec := sectionOf_eq hlk
  refine ⟨es, ⟨?_, hsec ▸ hfew, hsec ▸ hrd⟩, hcls, hacr, hrol⟩
  intro _ hv
  exact .inr ⟨_, (Option.some.inj (hlk.symm.trans hv)).symm⟩

theorem aliasesPresent_eq_false {root : Object}
    (h : ∀ name ∈ ["id_token", "userinfo"], aliasMembers (sectionOf root name) = []) :
    AscRequest.aliasesPresent root = false := by
  have hsec : ∀ name ∈ ["id_token", "userinfo"],
      ¬∃ m ∈ sectionOf root name, Text.startsWith ':' m.1 = true := by
    rintro name hnm ⟨m, hm, hali⟩
    obtain ⟨short, hsh⟩ : ∃ short, Text.strip ':' m.1 = some short :=
      Option.ne_none_iff_exists'.1 (by simp [Text.strip_eq_none, hali])
    have hmem : (short, m.2) ∈ aliasMembers (sectionOf root name) :=
      mem_aliasMembers.2 ((Text.strip_eq_some.1 hsh) ▸ hm)
    rw [h name hnm] at hmem
    simp at hmem
  simpa [AscRequest.aliasesPresent] using hsec

section

variable (h : req.Accepted)
include h

theorem Accepted.parse_asc : AscRequest.parse req.rootJson = .ok req.asc := by
  have hid := sectionOf_rootJson_id req ▸ h.id.aliasMembers_json
  have hu := sectionOf_rootJson_user req ▸ h.user.aliasMembers_json
  cases hasc : req.asc with
  | none =>
    have hlk : lookup req.rootJson "_asc" = none := by
      simp [rootJson, hasc, lookup_cons]
    have hpr : AscRequest.aliasesPresent req.rootJson = false := by
      refine aliasesPresent_eq_false ?_
      simp only [List.mem_cons, List.not_mem_nil, or_false, forall_eq_or_imp, forall_eq, hid, hu]
      simp [idContent, userContent, hasc, mapEntries]
    simp [AscRequest.parse, hlk, hpr]
  | some asc =>
    have hlk : lookup req.rootJson "_asc" = some (.obj asc.ascJson) := by
      simp [rootJson, hasc, lookup_cons]
    simp only [idContent, userContent, hasc, Option.map_some] at hid hu
    exact (h.asc asc hasc).parse_of_members hlk hid hu

/-- **A stored request reads back**, unless its sections hold too many members. -/
theorem Accepted.readRoot_rootJson {result : ClaimsRequest} :
    readRoot req.rootJson = .ok result ↔ result = req ∧
    req.idContent.json.length ≤ maxClaims ∧ req.userContent.json.length ≤ maxClaims := by
  have hrd (hid : req.idContent.json.length ≤ maxClaims)
      (hu : req.userContent.json.length ≤ maxClaims) :
      readRoot req.rootJson = .ok req := by
    have hloo : lookup req.rootJson "id_token" =
        some (.obj req.idContent.json) := by
      cases hasc : req.asc <;> simp [rootJson, hasc, lookup_cons]
    have hlk : lookup req.rootJson "userinfo" =
        some (.obj req.userContent.json) := by
      cases hasc : req.asc <;> simp [rootJson, hasc, lookup_cons]
    obtain ⟨idEntries, hidEn, hidCl, hidA, hidR⟩ :=
      SectionEntries.of_json h.id hloo hid
    obtain ⟨userEntries, huse, huserC, huserA, -⟩ :=
      SectionEntries.of_json h.user hlk hu
    refine readRoot_ok.2 ⟨idEntries, userEntries, hidEn, huse,
      parseIdaSection_of_json h.id req.sectionOf_rootJson_id,
      parseIdaSection_of_json h.user req.sectionOf_rootJson_user, h.parse_asc,
      hidCl.symm, huserC.symm, ?_, hidR.symm⟩
    rw [hidA, huserA]
    simp [idContent, userContent]
  constructor
  · intro hres
    obtain ⟨_, _, hfr⟩ := readRoot_ok.1 hres
    have hid := hfr.id.few
    have hu := hfr.user.few
    rw [sectionOf_rootJson_id] at hid
    rw [sectionOf_rootJson_user] at hu
    exact ⟨Except.ok.inj (hres.symm.trans (hrd hid hu)), hid, hu⟩
  · rintro ⟨rfl, hid, hu⟩
    exact hrd hid hu

/-- A stored document whose entries accept plain values is plain. -/
theorem Accepted.plain_rootJson (hals : ∀ content ∈ [req.idContent, req.userContent],
      ∀ e ∈ content.aliases, e.2.values = [])
    (hacr : ∀ entry, req.acr = some entry → ∀ v ∈ entry.values, Plain 5 v)
    (hcls : ∀ content ∈ [req.idContent, req.userContent],
      ∀ e ∈ content.claims, ∀ v ∈ e.2.values, Plain 5 v) : Plain 9 (.obj req.rootJson) := by
  have hid : Plain 8 (.obj req.idContent.json) :=
    h.id.plain_json (by decide) (hals _ (by simp)) hacr (hcls _ (by simp))
  have hu : Plain 8 (.obj req.userContent.json) :=
    h.user.plain_json (by decide) (hals _ (by simp)) (by simp [userContent])
      (hcls _ (by simp))
  refine plain_obj.2 ⟨req.sorted_rootJson, fun m hm => ?_⟩
  simp only [rootJson, List.mem_append, Option.mem_toList, Option.map_eq_some_iff,
    List.mem_cons, List.not_mem_nil, or_false] at hm
  rcases hm with ⟨asc, hso, rfl⟩ | rfl | rfl
  · exact ⟨(by decide : isSerdeJsonSentinel "_asc" = false),
      (h.asc asc hso).plain_ascJson.mono (by decide)⟩
  · exact ⟨(by decide : isSerdeJsonSentinel "id_token" = false), hid⟩
  · exact ⟨(by decide : isSerdeJsonSentinel "userinfo" = false), hu⟩

theorem Accepted.toJson_setAcr (acr : ClaimRequest) :
    { req with acr := some acr }.toJson = req.toJson.setMember "id_token"
      (((req.toJson.member "id_token").getD .null).setMember "acr" acr.toJson) := by
  have hasc : ¬("id_token" : String) < "_asc" := by decide
  have hjs : { req with acr := some acr }.idContent.json =
      insert req.idContent.json "acr" acr.toJson := h.id.json_setAcr acr
  have hlk : lookup req.rootJson "id_token" =
      some (.obj req.idContent.json) := by
    cases hasc : req.asc <;> simp [rootJson, hasc, lookup_cons]
  rw [toJson_eq, toJson_eq, member_obj, hlk, Option.getD_some, setMember, setMember]
  rw [rootJson, hjs]
  cases hso : req.asc with
  | none => simp [rootJson, hso, Entries.insert, userContent]
  | some => simp [rootJson, hso, Entries.insert, hasc, userContent]

end

end ClaimsRequest

end AsteriusIdp
