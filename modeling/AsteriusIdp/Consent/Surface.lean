import AsteriusIdp.Claims.RoundTrip

/-!
# Consent surfaces

What a claims request would disclose, flattened to a set of texts that can be compared with what
was agreed to before (`claimsSurface`).

The texts stand for disclosures (`Disclosure.entry`), and a request asks for what its surface says
(`mem_claimsSurface`).  Parts of a text are joined with colons, which names may contain as well,
so a text is unambiguous only when they do not (`Disclosure.unambiguous`); between unambiguous
requests a surface that is covered is a request that is covered (`surface_faithful`), role claims
excepted, which have no entry.
-/

namespace AsteriusIdp

open Fallible Json

/-- Where a claim goes. -/
inductive Destination where
  | idToken
  | userinfo
  deriving DecidableEq

/-- Its wire name. -/
def Destination.asStr : Destination → String
  | idToken => "id_token"
  | userinfo => "userinfo"

/-- The advanced claims of a request as one text. -/
def AscRequest.consentSurface (serde : Serde) (asc : AscRequest) : String :=
  let root : Object := Entries.insert [] "id_token" (.obj [])
  let root := Entries.insert root "userinfo" (.obj [])
  serde.toString (.obj (asc.addJson root))

namespace ClaimsRequest

variable (request : ClaimsRequest)

/-- The claims asked for at a destination. -/
def claimsFor : Destination → Entries ReleasableClaim ClaimRequest
  | .idToken => request.idToken
  | .userinfo => request.userinfo

/-- The verified claims asked for at a destination. -/
def idaFor : Destination → Option IdaRequest
  | .idToken => request.idaIdToken
  | .userinfo => request.idaUserinfo

end ClaimsRequest

/-- The entries of a section. -/
def sectionSurface (destination : Destination) (claims : Entries ReleasableClaim ClaimRequest) :
    Finset String :=
  (claims.map fun e => Text.qualified destination.asStr e.1.asStr).toFinset

/-- The entry for something of a request for verified claims. -/
def verifiedEntry (destination : Destination) (framework : Option String) (item : String) :
    String :=
  Text.qualified destination.asStr
    (Text.qualified "verified_claims" (Text.qualified (framework.getD "*") item))

/-- The entries of a request for verified claims. -/
def idaSurface (destination : Destination) (ida : IdaRequest) : Finset String :=
  (ida.claims.map fun e => verifiedEntry destination ida.framework e.1.raw).toFinset ∪
    ida.evidenceTypes.image (fun kind =>
      verifiedEntry destination ida.framework (Text.qualified "evidence" kind.asStr)) ∪
    if ida.verificationProcess then
      {verifiedEntry destination ida.framework "verification_process"}
    else ∅

/-- The claims a request would disclose. -/
def claimsSurface (serde : Serde) (request : ClaimsRequest) : Finset String :=
  sectionSurface .idToken request.idToken ∪ sectionSurface .userinfo request.userinfo ∪
    (request.asc.elim ∅ fun asc => {Text.qualified "asc" (asc.consentSurface serde)}) ∪
    (request.idaIdToken.elim ∅ (idaSurface .idToken)) ∪
    (request.idaUserinfo.elim ∅ (idaSurface .userinfo))

/-! ### Disclosures -/

/-- One thing that a claims request asks to be told. -/
inductive Disclosure where
  | claim (destination : Destination) (claim : ReleasableClaim)
  /-- A role claim in the ID token. -/
  | role (claim : RoleClaim)
  | verified (destination : Destination) (framework : Option String) (name : VerifiedClaimName)
  | evidence (destination : Destination) (framework : Option String) (kind : EvidenceType)
  | process (destination : Destination) (framework : Option String)
  /-- The transformed claims and the rules, as one expression. -/
  | advanced (asc : AscRequest)

/-- The request asks to be told it. -/
def ClaimsRequest.Asks (request : ClaimsRequest) : Disclosure → Prop
  | .claim destination claim => ∃ e ∈ request.claimsFor destination, e.1 = claim
  | .role claim => claim ∈ request.roleClaims
  | .verified destination framework name =>
    ∃ ida, request.idaFor destination = some ida ∧ ida.framework = framework ∧
    ∃ e ∈ ida.claims, e.1 = name
  | .evidence destination framework kind =>
    ∃ ida, request.idaFor destination = some ida ∧ ida.framework = framework ∧
    kind ∈ ida.evidenceTypes
  | .process destination framework =>
    ∃ ida, request.idaFor destination = some ida ∧ ida.framework = framework ∧
    ida.verificationProcess = true
  | .advanced asc => request.asc = some asc

namespace Disclosure

/-- The text that stands for a disclosure; a role claim has none. -/
def entry (serde : Serde) : Disclosure → Option String
  | claim destination name => some (Text.qualified destination.asStr name.asStr)
  | role _ => none
  | verified destination framework name => some (verifiedEntry destination framework name.raw)
  | evidence destination framework kind =>
    some (verifiedEntry destination framework (Text.qualified "evidence" kind.asStr))
  | process destination framework =>
    some (verifiedEntry destination framework "verification_process")
  | advanced asc => some (Text.qualified "asc" (asc.consentSurface serde))

/-- The framework can be told from what follows it. -/
def plainFramework (framework : Option String) : Bool :=
  framework.all fun name => !name.toList.contains ':'

/-- No name of the disclosure looks like another part of its text. -/
def unambiguous : Disclosure → Bool
  | claim _ name => !Text.opensWith "verified_claims:" name.asStr
  | role _ => true
  | verified _ framework name =>
    plainFramework framework && !Text.opensWith "evidence:" name.raw &&
      name.raw ≠ "verification_process"
  | evidence _ framework _ => plainFramework framework
  | process _ framework => plainFramework framework
  | advanced _ => true

end Disclosure

variable {dest dest' : Destination} {text : String} {ida : IdaRequest} {serde : Serde}
  {asc : AscRequest} {framework : Option String}

theorem mem_sectionSurface {claims : Entries ReleasableClaim ClaimRequest} :
    text ∈ sectionSurface dest claims ↔
      ∃ e ∈ claims, Text.qualified dest.asStr e.1.asStr = text := by
  simp [sectionSurface]

theorem mem_idaSurface :
    text ∈ idaSurface dest ida ↔
      (∃ e ∈ ida.claims, verifiedEntry dest ida.framework e.1.raw = text) ∨
      (∃ kind ∈ ida.evidenceTypes,
        verifiedEntry dest ida.framework (Text.qualified "evidence" kind.asStr) = text) ∨
      (ida.verificationProcess = true ∧
        text = verifiedEntry dest ida.framework "verification_process") := by
  simp only [idaSurface, Finset.mem_union, List.mem_toFinset, List.mem_map, or_assoc]
  split_ifs with hpr <;> simp [hpr]

variable {req : ClaimsRequest}

theorem mem_idaFor (h : req.idaFor dest = some ida) (hmem : text ∈ idaSurface dest ida) :
    ∃ d, req.Asks d ∧ d.entry serde = some text := by
  rcases mem_idaSurface.1 hmem with ⟨e, he, rfl⟩ | ⟨kind, hkd, rfl⟩ | ⟨hpr, rfl⟩
  · exact ⟨.verified dest ida.framework e.1, ⟨ida, h, rfl, e, he, rfl⟩, rfl⟩
  · exact ⟨.evidence dest ida.framework kind, ⟨ida, h, rfl, hkd⟩, rfl⟩
  · exact ⟨.process dest ida.framework, ⟨ida, h, rfl, hpr⟩, rfl⟩

theorem mem_claimsSurface_of_ida (h : req.idaFor dest = some ida)
    (hmem : text ∈ idaSurface dest ida) : text ∈ claimsSurface serde req := by
  simp only [claimsSurface, Finset.mem_union]
  cases dest with
  | idToken =>
    have hida : req.idaIdToken = some ida := h
    exact .inl (.inr (by simpa [hida] using hmem))
  | userinfo =>
    have hida : req.idaUserinfo = some ida := h
    exact .inr (by simpa [hida] using hmem)

/-- **A surface says what a request asks for.** -/
theorem mem_claimsSurface :
    text ∈ claimsSurface serde req ↔ ∃ d, req.Asks d ∧ d.entry serde = some text := by
  constructor
  · intro h
    simp only [claimsSurface, Finset.mem_union, mem_sectionSurface] at h
    rcases h with ((((⟨e, he, rfl⟩ | ⟨e, he, rfl⟩) | hasc) | hida) | hida)
    · exact ⟨.claim .idToken e.1, ⟨e, he, rfl⟩, rfl⟩
    · exact ⟨.claim .userinfo e.1, ⟨e, he, rfl⟩, rfl⟩
    · cases hso : req.asc with
      | none => simp [hso] at hasc
      | some asc =>
        simp only [hso, Option.elim_some, Finset.mem_singleton] at hasc
        exact ⟨.advanced asc, hso, by rw [hasc]; rfl⟩
    · cases hso : req.idaIdToken with
      | none => simp [hso] at hida
      | some ida =>
        rw [hso] at hida
        exact mem_idaFor (show req.idaFor .idToken = some ida from hso) hida
    · cases hso : req.idaUserinfo with
      | none => simp [hso] at hida
      | some ida =>
        rw [hso] at hida
        exact mem_idaFor (show req.idaFor .userinfo = some ida from hso) hida
  · rintro ⟨d, hasks, hent⟩
    cases d with
    | claim dest =>
      obtain ⟨e, he, rfl⟩ := hasks
      cases hent
      simp only [claimsSurface, Finset.mem_union, mem_sectionSurface]
      cases dest with
      | idToken => exact .inl (.inl (.inl (.inl ⟨e, he, rfl⟩)))
      | userinfo => exact .inl (.inl (.inl (.inr ⟨e, he, rfl⟩)))
    | role => cases hent
    | verified =>
      obtain ⟨ida, hida, rfl, e, he, rfl⟩ := hasks
      cases hent
      exact mem_claimsSurface_of_ida hida (mem_idaSurface.2 (.inl ⟨e, he, rfl⟩))
    | evidence dest framework kind =>
      obtain ⟨ida, hida, rfl, hkd⟩ := hasks
      cases hent
      exact mem_claimsSurface_of_ida hida (mem_idaSurface.2 (.inr (.inl ⟨kind, hkd, rfl⟩)))
    | process =>
      obtain ⟨_, hida, rfl, hpr⟩ := hasks
      cases hent
      exact mem_claimsSurface_of_ida hida (mem_idaSurface.2 (.inr (.inr ⟨hpr, rfl⟩)))
    | advanced asc =>
      have hasc : req.asc = some asc := hasks
      cases hent
      simp [claimsSurface, hasc]

/-! ### Texts can be told apart -/

theorem Destination.asStr_inj : dest.asStr = dest'.asStr ↔ dest = dest' := by
  cases dest <;> cases dest' <;> decide

theorem Destination.colon_notMem (dest : Destination) : ':' ∉ dest.asStr.toList := by
  cases dest <;> decide

/-- The request that asks for nothing but advanced claims. -/
def AscRequest.alone (asc : AscRequest) : ClaimsRequest :=
  { ClaimsRequest.default with asc := some asc }

theorem AscRequest.Accepted.alone (h : asc.Accepted) : asc.alone.Accepted := by
  refine ⟨⟨Entries.Sorted.nil, ?_, ?_, ?_, h.idToken.sorted⟩,
    ⟨Entries.Sorted.nil, ?_, ?_, ?_, h.userinfo.sorted⟩, ?_⟩
  all_goals
    simp [AscRequest.alone, ClaimsRequest.default, ClaimsRequest.idContent,
      ClaimsRequest.userContent]
  exact h

theorem AscRequest.Accepted.plain_alone (h : asc.Accepted) : Plain 9 (.obj asc.alone.rootJson) := by
  refine h.alone.plain_rootJson ?_ ?_ ?_
  · simp only [List.mem_cons, List.not_mem_nil, or_false, forall_eq_or_imp, forall_eq]
    exact ⟨h.idToken.values, h.userinfo.values⟩
  · intro _ hent
    cases hent
  · simp [AscRequest.alone, ClaimsRequest.default, ClaimsRequest.idContent,
      ClaimsRequest.userContent]

/-- The text of an accepted request for advanced claims determines the request. -/
theorem AscRequest.consentSurface_inj {asc' : AscRequest} (h : asc.Accepted) (h' : asc'.Accepted)
    (heq : asc.consentSurface serde = asc'.consentSurface serde) : asc = asc' := by
  have htx : serde.toString asc.alone.toJson = serde.toString asc'.alone.toJson := heq
  have hpl := h.plain_alone.mono (by decide : 9 ≤ 127)
  have hpl' := h'.plain_alone.mono (by decide : 9 ≤ 127)
  rw [← ClaimsRequest.toJson_eq] at hpl hpl'
  have hjs := (serde.toString_inj hpl hpl').1 htx
  rw [ClaimsRequest.toJson_eq, ClaimsRequest.toJson_eq, Json.obj.injEq] at hjs
  have hpar := h.alone.parse_asc
  rw [hjs, h'.alone.parse_asc] at hpar
  exact (Option.some.inj (Except.ok.inj hpar)).symm

/-- What is known of a framework that was read and has no colon. -/
def PlainFramework (framework : Option String) : Prop :=
  ∀ name, framework = some name → ':' ∉ name.toList ∧ name ≠ "*"

section

variable (h : PlainFramework framework)
include h

theorem PlainFramework.colon_notMem : ':' ∉ (framework.getD "*").toList := by
  cases framework with
  | none => decide
  | some name => exact (h name rfl).1

variable {framework' : Option String}

theorem PlainFramework.getD_inj (h' : PlainFramework framework')
    (heq : framework.getD "*" = framework'.getD "*") : framework = framework' := by
  cases framework with
  | none =>
    cases framework' with
    | none => rfl
    | some name => exact absurd heq.symm (h' name rfl).2
  | some name =>
    cases framework' with
    | none => exact absurd heq (h name rfl).2
    | some => exact congrArg some heq

theorem verifiedEntry_inj {item item' : String} (h' : PlainFramework framework')
    (heq : verifiedEntry dest framework item = verifiedEntry dest' framework' item') :
    dest = dest' ∧ framework = framework' ∧ item = item' := by
  obtain ⟨hdst, hrs⟩ :=
    (Text.qualified_inj dest.colon_notMem dest'.colon_notMem).1 heq
  obtain ⟨hfw, hit⟩ := (Text.qualified_inj h.colon_notMem h'.colon_notMem).1
    (Text.qualified_right_injective _ hrs)
  exact ⟨Destination.asStr_inj.1 hdst, h.getD_inj h' hfw, hit⟩

end

theorem claim_ne_verifiedEntry {name : String} {item : String}
    (h : Text.opensWith "verified_claims:" name = false) :
    Text.qualified dest.asStr name ≠ verifiedEntry dest' framework item := by
  intro heq
  obtain ⟨-, rfl⟩ := (Text.qualified_inj dest.colon_notMem dest'.colon_notMem).1 heq
  have hope := Text.opensWith_qualified "verified_claims"
    (Text.qualified (framework.getD "*") item)
  rw [show ("verified_claims" ++ ":" : String) = "verified_claims:" from rfl, h] at hope
  cases hope

theorem asc_ne_qualified {rest : String} :
    Text.qualified "asc" text ≠ Text.qualified dest.asStr rest := by
  intro heq
  have hnm := ((Text.qualified_inj (by decide) dest.colon_notMem).1 heq).1
  cases dest <;> exact absurd hnm (by decide)

namespace Disclosure

/-- What is known of an unambiguous disclosure that an accepted request asks for. -/
def Readable : Disclosure → Prop
  | claim _ name => Text.opensWith "verified_claims:" name.asStr = false
  | role _ => True
  | verified _ framework name =>
    PlainFramework framework ∧ Text.opensWith "evidence:" name.raw = false ∧
    name.raw ≠ "verification_process"
  | evidence _ framework _ => PlainFramework framework
  | process _ framework => PlainFramework framework
  | advanced asc => asc.Accepted

theorem plainFramework_of_accepted {ida : IdaRequest} (h : ida.Accepted)
    (hpl : plainFramework ida.framework = true) : PlainFramework ida.framework := by
  intro name hnm
  have hst : IdaRequest.isFramework "*" = false := by decide
  refine ⟨by simpa [plainFramework, hnm] using hpl, ?_⟩
  rintro rfl
  cases (h.framework _ hnm).symm.trans hst

theorem readable_of_asks {req : ClaimsRequest} {d : Disclosure} (hacc : req.Accepted)
    (hasks : req.Asks d) (hpl : d.unambiguous = true) : d.Readable := by
  have hida : ∀ {dest ida}, req.idaFor dest = some ida → ida.Accepted := by
    intro dest ida h
    cases dest with
    | idToken => exact hacc.id.ida ida h
    | userinfo => exact hacc.user.ida ida h
  cases d with
  | claim => simpa [unambiguous, Readable] using hpl
  | role => trivial
  | verified =>
    obtain ⟨ida, h, rfl, -⟩ := hasks
    simp only [unambiguous, Bool.and_eq_true, Bool.not_eq_true', decide_eq_true_eq] at hpl
    exact ⟨plainFramework_of_accepted (hida h) hpl.1.1, hpl.1.2, hpl.2⟩
  | evidence =>
    obtain ⟨ida, h, rfl, -⟩ := hasks
    exact plainFramework_of_accepted (hida h) hpl
  | process =>
    obtain ⟨_, h, rfl, -⟩ := hasks
    exact plainFramework_of_accepted (hida h) hpl
  | advanced asc => exact hacc.asc asc hasks

theorem name_ne_evidence {name : String} (h : Text.opensWith "evidence:" name = false)
    (kind : String) : name ≠ Text.qualified "evidence" kind := by
  rintro rfl
  have hope := Text.opensWith_qualified "evidence" kind
  rw [show ("evidence" ++ ":" : String) = "evidence:" from rfl, h] at hope
  cases hope

/-- **An entry stands for one disclosure.** -/
theorem eq_of_entry {serde : Serde} {text : String} {d d' : Disclosure} (h : d.Readable)
    (h' : d'.Readable) (hent : d.entry serde = some text) (hent' : d'.entry serde = some text) :
    d = d' := by
  wlog hle : d.ctorIdx ≤ d'.ctorIdx generalizing d d' with hsy
  · exact (hsy h' h hent' hent (Nat.le_of_not_le hle)).symm
  have heq := hent.trans hent'.symm
  cases d with
  | role => cases hent
  | claim dest =>
    cases d' with
    | role => cases hent'
    | claim dest' =>
      obtain ⟨hdst, hnm⟩ := (Text.qualified_inj dest.colon_notMem
        dest'.colon_notMem).1 (Option.some.inj heq)
      rw [Destination.asStr_inj.1 hdst, ReleasableClaim.asStr_injective hnm]
    | advanced => exact absurd (Option.some.inj heq).symm asc_ne_qualified
    | _ => exact absurd (Option.some.inj heq) (claim_ne_verifiedEntry h)
  | verified =>
    cases d' with
    | verified =>
      obtain ⟨rfl, rfl, hnm⟩ := verifiedEntry_inj h.1 h'.1 (Option.some.inj heq)
      rw [VerifiedClaimName.raw_injective hnm]
    | evidence =>
      obtain ⟨-, -, hnm⟩ := verifiedEntry_inj h.1 h' (Option.some.inj heq)
      exact absurd hnm (name_ne_evidence h.2.1 _)
    | process =>
      obtain ⟨-, -, hnm⟩ := verifiedEntry_inj h.1 h' (Option.some.inj heq)
      exact absurd hnm h.2.2
    | advanced => exact absurd (Option.some.inj heq).symm asc_ne_qualified
    | _ => simp [Disclosure.ctorIdx] at hle
  | evidence dest framework kind =>
    cases d' with
    | evidence =>
      obtain ⟨rfl, rfl, hkd⟩ := verifiedEntry_inj h h' (Option.some.inj heq)
      rw [EvidenceType.asStr_injective (Text.qualified_right_injective _ hkd)]
    | process =>
      obtain ⟨-, -, hkd⟩ := verifiedEntry_inj h h' (Option.some.inj heq)
      exact absurd hkd (by cases kind <;> decide)
    | advanced => exact absurd (Option.some.inj heq).symm asc_ne_qualified
    | _ => simp [Disclosure.ctorIdx] at hle
  | process =>
    cases d' with
    | process =>
      obtain ⟨rfl, rfl, -⟩ := verifiedEntry_inj h h' (Option.some.inj heq)
      rfl
    | advanced => exact absurd (Option.some.inj heq).symm asc_ne_qualified
    | _ => simp [Disclosure.ctorIdx] at hle
  | advanced =>
    cases d' with
    | advanced =>
      exact congrArg advanced (AscRequest.consentSurface_inj h h'
        (Text.qualified_right_injective _ (Option.some.inj heq)))
    | _ => simp [Disclosure.ctorIdx] at hle

end Disclosure

/-! ### Covered surfaces -/

/-- No disclosure of the request has an ambiguous text. -/
def ClaimsRequest.unambiguous (request : ClaimsRequest) : Bool :=
  [Destination.idToken, .userinfo].all fun destination =>
    ((request.claimsFor destination).all fun e =>
      (Disclosure.claim destination e.1).unambiguous) &&
    (request.idaFor destination).all fun ida => Disclosure.plainFramework ida.framework &&
      ida.claims.all fun e => (Disclosure.verified destination ida.framework e.1).unambiguous

theorem ClaimsRequest.unambiguous_of_asks {d : Disclosure} (h : req.unambiguous = true)
    (hasks : req.Asks d) : d.unambiguous = true := by
  have hall : ∀ dest,
      (∀ e ∈ req.claimsFor dest,
        (Disclosure.claim dest e.1).unambiguous = true) ∧
      ∀ ida, req.idaFor dest = some ida →
        Disclosure.plainFramework ida.framework = true ∧
        ∀ e ∈ ida.claims,
          (Disclosure.verified dest ida.framework e.1).unambiguous = true := by
    intro dest
    have hmem : dest ∈ [Destination.idToken, .userinfo] := by cases dest <;> decide
    have hdst := List.all_eq_true.1 h dest hmem
    rw [Bool.and_eq_true, List.all_eq_true, Option.all_eq_true] at hdst
    refine ⟨hdst.1, fun ida hida => ?_⟩
    simpa using hdst.2 ida hida
  cases d with
  | claim dest =>
    obtain ⟨e, he, rfl⟩ := hasks
    exact (hall dest).1 e he
  | role => rfl
  | verified dest =>
    obtain ⟨ida, hida, rfl, e, he, rfl⟩ := hasks
    exact ((hall dest).2 ida hida).2 e he
  | evidence dest =>
    obtain ⟨ida, hida, rfl, -⟩ := hasks
    exact ((hall dest).2 ida hida).1
  | process dest =>
    obtain ⟨ida, hida, rfl, -⟩ := hasks
    exact ((hall dest).2 ida hida).1
  | advanced => rfl

/-- **A covered surface is a covered request.**  When the surface of an accepted request is covered
by the surfaces of others, and none of them is ambiguous, everything but a role claim that the
request asks for is asked for by one of the others. -/
theorem surface_faithful {serde : Serde} {raw : String} {request : ClaimsRequest}
    {remembered : List ClaimsRequest} (h : ClaimsRequest.parse serde raw = .ok request)
    (hremembered : ∀ other ∈ remembered, ∃ text, ClaimsRequest.parse serde text = .ok other)
    (hplain : ∀ other ∈ request :: remembered, other.unambiguous = true)
    (hcovered : ∀ text ∈ claimsSurface serde request,
      ∃ other ∈ remembered, text ∈ claimsSurface serde other)
    {disclosure : Disclosure} (hasks : request.Asks disclosure)
    (hrole : ∀ claim, disclosure ≠ .role claim) :
    ∃ other ∈ remembered, other.Asks disclosure := by
  obtain ⟨text, hent⟩ : ∃ text, disclosure.entry serde = some text := by
    cases disclosure with
    | role claim => exact absurd rfl (hrole claim)
    | _ => exact ⟨_, rfl⟩
  obtain ⟨other, hoth, hmem⟩ := hcovered text (mem_claimsSurface.2 ⟨_, hasks, hent⟩)
  obtain ⟨_, hasks', hent'⟩ := mem_claimsSurface.1 hmem
  obtain ⟨_, hpar⟩ := hremembered other hoth
  have hrd := Disclosure.readable_of_asks (ClaimsRequest.parse_sound serde h).1 hasks
    (ClaimsRequest.unambiguous_of_asks (hplain request List.mem_cons_self) hasks)
  have hrd' := Disclosure.readable_of_asks (ClaimsRequest.parse_sound serde hpar).1 hasks'
    (ClaimsRequest.unambiguous_of_asks (hplain other (List.mem_cons_of_mem _ hoth)) hasks')
  rw [Disclosure.eq_of_entry hrd hrd' hent hent']
  exact ⟨other, hoth, hasks'⟩

/-- Asks for the name that was verified under a trust framework. -/
def verifiedText : String :=
  "\x7b\"id_token\":\x7b\"verified_claims\":\x7b\"claims\":\x7b\"given_name\":null\x7d," ++
    "\"verification\":\x7b\"trust_framework\":\x7b\"value\":\"eidas\"\x7d\x7d\x7d\x7d\x7d"

/-- What it is read to. -/
def verifiedName : ClaimsRequest :=
  { ClaimsRequest.default with
    idaIdToken := some
      { framework := some "eidas", claims := [(⟨"given_name", by decide⟩, false)]
        evidenceTypes := ∅, verificationProcess := false } }

theorem parse_verifiedText : ClaimsRequest.parse .compact verifiedText = .ok verifiedName := by
  decide +kernel

/-- The name and the email address, asked for again by one request. -/
theorem surface_faithful_email : let remembered := [ClaimsRequest.emailRequest, verifiedName]
    (∃ other ∈ remembered, other.Asks (.claim .idToken (.userAttribute .email))) ∧
    ∃ other ∈ remembered,
      other.Asks (.verified .idToken (some "eidas") ⟨"given_name", by decide⟩) := by
  have hpar : ClaimsRequest.parse .compact
      ("\x7b\"id_token\":\x7b\"email\":null,\"verified_claims\":\x7b" ++
        "\"claims\":\x7b\"given_name\":null\x7d,\"verification\":\x7b" ++
        "\"trust_framework\":\x7b\"value\":\"eidas\"\x7d\x7d\x7d\x7d\x7d") =
      .ok { verifiedName with idToken := [(.userAttribute .email, .default)] } := by
    decide +kernel
  have hrem : ∀ other ∈ [ClaimsRequest.emailRequest, verifiedName],
      ∃ text, ClaimsRequest.parse .compact text = .ok other := by
    simp only [List.forall_mem_cons]
    exact ⟨⟨_, ClaimsRequest.parse_emailRoot⟩, ⟨_, parse_verifiedText⟩, by simp⟩
  have hask := @surface_faithful _ _ _ _ hpar hrem (by decide +kernel) (by decide +kernel)
  exact ⟨hask ⟨_, List.mem_singleton_self _, rfl⟩ (by simp),
    hask ⟨_, rfl, rfl, _, List.mem_singleton_self _, rfl⟩ (by simp)⟩

/-- Asks for a claim whose name reads like that. -/
def lookalikeText : String :=
  "\x7b\"id_token\":\x7b\"verified_claims:eidas:given_name\":null\x7d\x7d"

/-- What it is read to. -/
def lookalikeName : ClaimsRequest :=
  { ClaimsRequest.default with
    idToken := [(.stored ⟨"verified_claims:eidas:given_name", by decide⟩, .default)] }

/-- **What a surface does not show.**  A role claim has no entry, and a verified claim has the
entry of a claim that nobody verified. -/
theorem surface_not_faithful :
    (∃ request,
      ClaimsRequest.parse .compact "\x7b\"id_token\":\x7b\"roles\":null\x7d\x7d" = .ok request ∧
      claimsSurface .compact request = ∅ ∧ request.Asks (.role .roles)) ∧
    ClaimsRequest.parse .compact verifiedText = .ok verifiedName ∧
    ClaimsRequest.parse .compact lookalikeText = .ok lookalikeName ∧
    claimsSurface .compact verifiedName ⊆ claimsSurface .compact lookalikeName ∧
    ∃ d, verifiedName.Asks d ∧ ¬lookalikeName.Asks d := by
  refine ⟨⟨{ ClaimsRequest.default with roleClaims := {RoleClaim.roles} }, ?_, ?_, ?_⟩, ?_, ?_, ?_,
    .verified .idToken (some "eidas") ⟨"given_name", by decide⟩, ?_, ?_⟩
  · decide +kernel
  · decide +kernel
  · exact Finset.mem_singleton_self _
  · exact parse_verifiedText
  · decide +kernel
  · decide +kernel
  · exact ⟨_, rfl, rfl, _, List.mem_singleton_self _, rfl⟩
  · rintro ⟨_, hida, -⟩
    cases hida

end AsteriusIdp
