import AsteriusIdp.Claims.Stored
import AsteriusIdp.Json.Text

/-!
# Which claims requests can be stored

An accepted claims request is stored in its canonical form and read back with the same parser,
whose bounds were checked on the document that was sent and are checked again on the form that
was stored.  Two rewritings make the form larger than the document: the one accepted value of an
entry becomes a list of one, which nests one level deeper, and a request for `acr` under
`userinfo` moves to `id_token`, where it counts as one member more.

`restorable` says of a document that neither pushes it past a bound, and
`fromJson_toJson_eq_ok` that exactly then the stored form reads back.
-/

namespace AsteriusIdp

open Fallible Json Entries

namespace ClaimsRequest

/-! ### The condition -/

/-- The name of a claim that may be released. -/
def isClaimName (name : String) : Bool :=
  isPlainName name && (ReleasableClaim.parse name).isSome

/-- A name that the canonical form keeps. -/
def isRecognised (name : String) : Bool :=
  Text.startsWith ':' name || name = "verified_claims" || name = "acr" ||
    (RoleClaim.parse name).isSome || isClaimName name

/-- The one value an entry accepts leaves room for a list around it. -/
def shallowValue (entry : Json) : Bool := (entry.member "value").all fun v => v.depth ≤ 4

/-- The request for `acr` that counts. -/
def acrEntry (root : Object) : Option Json :=
  (Entries.lookup (sectionOf root "id_token") "acr").or
    (Entries.lookup (sectionOf root "userinfo") "acr")

/-- No entry that is kept accepts a single value that is as deep as a document allows. -/
def shallowValues (root : Object) : Bool :=
  (["id_token", "userinfo"].all fun member =>
    (sectionOf root member).all fun m => !isClaimName m.1 || shallowValue m.2) &&
    (acrEntry root).all shallowValue

/-- A request for `acr` that moves to the `id_token` section finds room there. -/
def roomForAcr (root : Object) : Bool :=
  Entries.contains (sectionOf root "id_token") "acr" ||
    !Entries.contains (sectionOf root "userinfo") "acr" ||
    ((sectionOf root "id_token").filter fun m => isRecognised m.1).length < maxClaims

/-- The canonical form of what the document asks for keeps to the bounds. -/
def restorable (root : Object) : Bool := shallowValues root && roomForAcr root

/-! ### The entries of a document -/

variable {req : ClaimsRequest} {root : Object} {member : String}
  {es idEntries userEntries : Entries String ClaimRequest}

theorem plain_sectionOf {n : ℕ} (h : Plain (n + 2) (.obj root)) (member : String) :
    Plain (n + 1) (.obj (sectionOf root member)) := by
  unfold sectionOf
  cases hlk : lookup root member with
  | none => exact plain_obj_nil n
  | some v =>
    have hv := ((plain_obj.1 h).2 _ (mem_of_lookup hlk)).2
    cases v with
    | obj => exact hv
    | _ => exact plain_obj_nil n

theorem SectionEntries.sorted (h : SectionEntries root member es)
    (hdoc : Plain 8 (.obj root)) : Sorted es :=
  sorted_mapValuesM h.read ((plain_obj.1 (plain_sectionOf hdoc member)).1.filter _)

variable {name raw : String} {entry : ClaimRequest} {v : Json} {ms : Object}

section

variable (h : SectionEntries root member es)
include h

theorem SectionEntries.lookup_eq_some :
    lookup es name = some entry ↔ isPlainName name = true ∧
    ∃ v, lookup (sectionOf root member) name = some v ∧ parseEntry v = .ok entry := by
  have hok : ∀ v, (parseEntry v).toOption = some entry ↔ parseEntry v = .ok entry := by
    intro v
    cases parseEntry v <;> simp [Except.toOption]
  rw [lookup_plainEntries h.read, Option.bind_eq_some_iff]
  simp [hok, and_assoc]

theorem SectionEntries.isSome_lookup :
    (lookup es name).isSome ↔
      isPlainName name = true ∧ contains (sectionOf root member) name = true := by
  simp only [h.lookup_eq_some, exists_and_left, contains, Option.isSome_iff_exists]
  refine and_congr_right fun hpl => ⟨?_, ?_⟩
  · rintro ⟨_, v, hv, -⟩
    exact ⟨v, hv⟩
  · rintro ⟨v, hv⟩
    have hmem : (name, v) ∈ (sectionOf root member).filter fun m => isPlainName m.1 :=
      List.mem_filter.2 ⟨mem_of_lookup hv, hpl⟩
    obtain ⟨req, hreq⟩ := exists_of_mapValuesM h.read _ hmem
    exact ⟨req, v, hv, hreq⟩

/-- The claims of a section are its members with the name of a claim. -/
theorem SectionEntries.mem_claimsOf (hdoc : Plain 8 (.obj root)) {claim : ReleasableClaim} :
    (claim, entry) ∈ claimsOf es ↔ isClaimName claim.asStr = true ∧
      ∃ v, lookup (sectionOf root member) claim.asStr = some v ∧ parseEntry v = .ok entry := by
  have hrel : (ReleasableClaim.parse claim.asStr).isSome ↔
      ReleasableClaim.isComputed claim.asStr = false := by
    simp only [Option.isSome_iff_exists, ReleasableClaim.parse_eq_some, exists_and_right]
    exact ⟨fun hh => hh.2, fun hh => ⟨⟨claim, rfl⟩, hh⟩⟩
  rw [← (sorted_claimsOf es).lookup_iff_mem, lookup_claimsOf (h.sorted hdoc),
    Option.ite_none_left_eq_some, h.lookup_eq_some, isClaimName, Bool.and_eq_true, Bool.not_eq_true]
  tauto

end

/-! ### The values of an entry -/

theorem plain_of_lookup (hdoc : Plain 8 (.obj root))
    (h : lookup (sectionOf root member) name = some v) : Plain 6 v :=
  ((plain_obj.1 (plain_sectionOf hdoc member)).2 _ (mem_of_lookup h)).2

theorem plain_values {entry : Json} {req : ClaimRequest} (hpl : Plain 6 entry)
    (h : parseEntry entry = .ok req) : ∀ v ∈ req.values, Plain 5 v := by
  intro v hv
  rcases mem_values_of_parseEntry h hv with hval | ⟨_, hit, hv⟩
  · exact hpl.member hval
  · exact (plain_arr.1 (hpl.member hit) v hv).mono (by decide)

/-- Only the single value of an entry can be too deep: the others stood in a list already. -/
theorem shallowValue_iff {entry : Json} {req : ClaimRequest} (hpl : Plain 6 entry)
    (h : parseEntry entry = .ok req) :
    shallowValue entry = true ↔ ∀ v ∈ req.values, v.depth ≤ 4 := by
  simp only [shallowValue, Option.all_eq_true, decide_eq_true_eq]
  constructor
  · intro hsh v hv
    rcases mem_values_of_parseEntry h hv with hval | ⟨_, hit, hv⟩
    · exact hsh v hval
    · exact (plain_arr.1 (hpl.member hit) v hv).shallow
  · intro hdep v hv
    exact hdep v (mem_values_of_value h hv)

theorem SectionEntries.shallow_claims (h : SectionEntries root member es)
    (hdoc : Plain 8 (.obj root)) :
    (∀ e ∈ claimsOf es, ∀ v ∈ e.2.values, v.depth ≤ 4) ↔
      ((sectionOf root member).all fun m => !isClaimName m.1 || shallowValue m.2) = true := by
  have hso := (plain_obj.1 (plain_sectionOf hdoc member)).1
  simp only [List.all_eq_true, Bool.or_eq_true, Bool.not_eq_true']
  constructor
  · intro hdep m hm
    by_contra hnot
    simp only [not_or, Bool.not_eq_false] at hnot
    have hlk := hso.lookup_of_mem hm
    obtain ⟨hpl, hrel⟩ := Bool.and_eq_true_iff.1 hnot.1
    obtain ⟨claim, hcl⟩ := Option.isSome_iff_exists.1 hrel
    obtain ⟨hnm, -⟩ := ReleasableClaim.parse_eq_some.1 hcl
    obtain ⟨req, hreq⟩ := exists_of_mapValuesM h.read _ (List.mem_filter.2 ⟨hm, hpl⟩)
    refine hnot.2 ((shallowValue_iff (plain_of_lookup hdoc hlk) hreq).2
      (hdep (claim, req) ((h.mem_claimsOf hdoc).2 ?_)))
    rw [hnm]
    exact ⟨hnot.1, m.2, hlk, hreq⟩
  · rintro hsh ⟨_, _⟩ he
    obtain ⟨hnm, _, hv, hreq⟩ := (h.mem_claimsOf hdoc).1 he
    rcases hsh _ (mem_of_lookup hv) with hnot | hval
    · exact absurd hnm (by simp [hnot])
    · exact (shallowValue_iff (plain_of_lookup hdoc hv) hreq).1 hval

/-- The request for `acr` that is stored is the one that counts. -/
theorem ReadFrom.acr_eq_some (h : ReadFrom req root idEntries userEntries) :
    req.acr = some entry ↔ ∃ v, acrEntry root = some v ∧ parseEntry v = .ok entry := by
  have hpl : isPlainName "acr" = true := by decide
  have hno : lookup idEntries "acr" = none ↔
      lookup (sectionOf root "id_token") "acr" = none := by
    rw [← Option.not_isSome_iff_eq_none, h.id.isSome_lookup]
    simp [hpl, contains]
  simp only [h.acr, acrEntry, Option.or_eq_some_iff, h.id.lookup_eq_some, h.user.lookup_eq_some,
    hno, hpl, true_and]
  constructor
  · rintro (⟨v, hv, hent⟩ | ⟨hemp, v, hv, hent⟩)
    · exact ⟨v, .inl hv, hent⟩
    · exact ⟨v, .inr ⟨hemp, hv⟩, hent⟩
  · rintro ⟨v, hv | ⟨hemp, hv⟩, hent⟩
    · exact .inl ⟨v, hv, hent⟩
    · exact .inr ⟨hemp, v, hv, hent⟩

theorem ReadFrom.exists_acr (h : ReadFrom req root idEntries userEntries)
    (hv : acrEntry root = some v) : ∃ entry, parseEntry v = .ok entry := by
  have hso : req.acr.isSome := by
    have hpl : isPlainName "acr" = true := by decide
    rw [h.acr, Option.isSome_or, Bool.or_eq_true, h.id.isSome_lookup, h.user.isSome_lookup]
    rcases Option.or_eq_some_iff.1 hv with hid | ⟨-, hu⟩
    · exact .inl ⟨hpl, by simp [contains, hid]⟩
    · exact .inr ⟨hpl, by simp [contains, hu]⟩
  obtain ⟨entry, hent⟩ := Option.isSome_iff_exists.1 hso
  obtain ⟨_, hw, hpar⟩ := h.acr_eq_some.1 hent
  cases hv.symm.trans hw
  exact ⟨entry, hpar⟩

theorem plain_acrEntry (hdoc : Plain 8 (.obj root)) (h : acrEntry root = some v) : Plain 6 v := by
  rcases Option.or_eq_some_iff.1 h with hid | ⟨-, hu⟩
  · exact plain_of_lookup hdoc hid
  · exact plain_of_lookup hdoc hu

theorem ReadFrom.shallow_acr (h : ReadFrom req root idEntries userEntries)
    (hdoc : Plain 8 (.obj root)) :
    (∀ entry, req.acr = some entry → ∀ v ∈ entry.values, v.depth ≤ 4) ↔
      (acrEntry root).all shallowValue = true := by
  rw [Option.all_eq_true]
  constructor
  · intro hdep v hv
    obtain ⟨entry, hent⟩ := h.exists_acr hv
    exact (shallowValue_iff (plain_acrEntry hdoc hv) hent).2
      (hdep entry (h.acr_eq_some.2 ⟨v, hv, hent⟩))
  · intro hsh _ hent
    obtain ⟨v, hv, hpar⟩ := h.acr_eq_some.1 hent
    exact (shallowValue_iff (plain_acrEntry hdoc hv) hpar).1 (hsh v hv)

/-! ### The aliases of a document -/

/-- The aliases of a section are read from its members. -/
structure AliasesFrom (members : Object) (aliases : Entries String ClaimRequest) : Prop where
  sorted : Entries.Sorted aliases
  values : ∀ e ∈ aliases, e.2.values = []
  named : ∀ name, Entries.contains aliases name = Entries.contains members (Text.cons ':' name)

theorem AliasesFrom.of_forall₂ {definitions : Entries String Definition}
    {aliases : Entries String ClaimRequest} (h : AliasesAccepted definitions aliases)
    (hof : List.Forall₂ (AliasOf definitions) (aliasMembers ms) aliases) :
    AliasesFrom ms aliases := by
  refine ⟨h.sorted, h.values, fun name => Bool.eq_iff_iff.2 ?_⟩
  simp only [contains, isSome_lookup_iff]
  constructor
  · rintro ⟨_, hmem⟩
    obtain ⟨m, hm, hpa⟩ := exists_of_mem_forall₂ hof hmem
    have hnm : name = m.1 := hpa.name
    exact ⟨m.2, hnm ▸ mem_aliasMembers.1 hm⟩
  · rintro ⟨entry, hmem⟩
    obtain ⟨e, he, hpa⟩ := exists_of_mem_forall₂ hof.flip
      (mem_aliasMembers (m := (name, entry)) |>.2 hmem)
    have hnm : e.1 = name := hpa.name
    exact ⟨e.2, hnm ▸ he⟩

theorem AliasesFrom.nil (h : ∀ m ∈ ms, Text.startsWith ':' m.1 = false) : AliasesFrom ms [] := by
  refine ⟨Sorted.nil, by simp, fun name => ?_⟩
  rw [eq_comm, contains, contains, lookup_nil, Option.isSome_none,
    ← Bool.not_eq_true, isSome_lookup_iff]
  rintro ⟨entry, hmem⟩
  simpa using h _ hmem

theorem ReadFrom.aliases (h : ReadFrom req root idEntries userEntries)
    (hdoc : Plain 8 (.obj root)) :
    AliasesFrom (sectionOf root "id_token") req.idContent.aliases ∧
    AliasesFrom (sectionOf root "userinfo") req.userContent.aliases := by
  cases hasc : req.asc with
  | none =>
    simp only [idContent, userContent, hasc, Option.map_none]
    have hpar := h.asc
    have habs : AscRequest.aliasesPresent root = false := by
      rw [hasc, AscRequest.parse] at hpar
      split at hpar
      · split_ifs at hpar with hpr
        simpa using hpr
      · simp at hpar
    simp only [AscRequest.aliasesPresent, List.any_cons, List.any_nil, Bool.or_false,
      Bool.or_eq_false_iff, List.any_eq_false, Bool.not_eq_true] at habs
    exact ⟨.nil habs.1, .nil habs.2⟩
  | some =>
    simp only [idContent, userContent, hasc, Option.map_some]
    have hso := fun member => (plain_obj.1 (plain_sectionOf hdoc member)).1
    obtain ⟨hacc, hid, hu⟩ :=
      AscRequest.accepted_of_parse (hso _) (hso _) (hasc ▸ h.asc)
    exact ⟨.of_forall₂ hacc.idToken hid, .of_forall₂ hacc.userinfo hu⟩

/-! ### The stored form of a document -/

theorem SectionEntries.accepted (h : SectionEntries root member es)
    (hdoc : Plain 8 (.obj root)) {content : Content} (hcls : content.claims = claimsOf es)
    (hida : parseIdaSection root member = .ok content.ida)
    (hals : AliasesFrom (sectionOf root member) content.aliases) : content.Accepted := by
  have hnm : ∀ e ∈ content.claims, isClaimName e.1.asStr = true := fun e he =>
    ((h.mem_claimsOf hdoc).1 (hcls ▸ he)).1
  refine ⟨hcls ▸ sorted_claimsOf es, fun e he => ?_, fun e he => ?_,
    (parseIdaSection_ok hida).2, hals.sorted⟩
  · obtain ⟨-, hrel⟩ := Bool.and_eq_true_iff.1 (hnm e he)
    obtain ⟨claim, hcl⟩ := Option.isSome_iff_exists.1 hrel
    exact (ReleasableClaim.parse_eq_some.1 hcl).2
  · obtain ⟨hpl, -⟩ := Bool.and_eq_true_iff.1 (hnm e he)
    simpa using (Bool.and_eq_true_iff.1 hpl).2

section

variable (h : ReadFrom req root idEntries userEntries) (hdoc : Plain 8 (.obj root))
include h hdoc

theorem ReadFrom.accepted : req.Accepted := by
  obtain ⟨hid, hu⟩ := h.aliases hdoc
  have hso := fun member => (plain_obj.1 (plain_sectionOf hdoc member)).1
  refine ⟨h.id.accepted hdoc h.idToken h.idaIdToken hid,
    h.user.accepted hdoc h.userinfo h.idaUserinfo hu, fun asc hasc => ?_⟩
  exact (AscRequest.accepted_of_parse (hso _) (hso _) (hasc ▸ h.asc)).1

/-- The stored document is plain, and at most one level deeper than the one that was sent. -/
theorem ReadFrom.plain_rootJson : Plain 9 (.obj req.rootJson) := by
  obtain ⟨hid, hu⟩ := h.aliases hdoc
  have hcls : ∀ {member es}, SectionEntries root member es →
      ∀ e ∈ claimsOf es, ∀ v ∈ e.2.values, Plain 5 v := by
    rintro _ _ hes _ he
    obtain ⟨-, v, hv, hpar⟩ := (hes.mem_claimsOf hdoc).1 he
    exact plain_values (plain_of_lookup hdoc hv) hpar
  refine (h.accepted hdoc).plain_rootJson ?_ ?_ ?_
  · simp only [List.mem_cons, List.not_mem_nil, or_false, forall_eq_or_imp, forall_eq]
    exact ⟨hid.values, hu.values⟩
  · intro _ hent
    obtain ⟨_, hv, hpar⟩ := h.acr_eq_some.1 hent
    exact plain_values (plain_acrEntry hdoc hv) hpar
  · simp only [List.mem_cons, List.not_mem_nil, or_false, forall_eq_or_imp, forall_eq, idContent,
      userContent, h.idToken, h.userinfo]
    exact ⟨hcls h.id, hcls h.user⟩

/-- **How deep the stored form nests.** -/
theorem ReadFrom.depth_rootJson_le :
    (Json.obj req.rootJson).depth ≤ maxDepth ↔ shallowValues root = true := by
  have hacc := h.accepted hdoc
  obtain ⟨hidAl, huse⟩ := h.aliases hdoc
  have hid := hacc.id.depth_json_le (n := 3) le_rfl hidAl.values
  have hu := hacc.user.depth_json_le (n := 3) le_rfl huse.values
  have hrt : (Json.obj req.rootJson).depth ≤ 7 + 1 ↔
      (Json.obj req.idContent.json).depth ≤ 7 ∧
        (Json.obj req.userContent.json).depth ≤ 7 := by
    rw [depth_obj_le]
    simp only [rootJson, List.mem_append, Option.mem_toList, Option.map_eq_some_iff,
      List.mem_cons, List.not_mem_nil, or_false, or_imp, forall_and, forall_eq]
    refine and_iff_right ?_
    rintro _ ⟨asc, hasc, rfl⟩
    exact (hacc.asc asc hasc).plain_ascJson.shallow.trans (by decide)
  rw [maxDepth, hrt, hu]
  simp only [shallowValues, List.all_cons, List.all_nil, Bool.and_eq_true,
    ← h.id.shallow_claims hdoc, ← h.user.shallow_claims hdoc, ← h.shallow_acr hdoc, ← h.idToken,
    ← h.userinfo, idContent, userContent]
  tauto

end

/-! ### How many members the stored sections have -/

theorem SectionEntries.exists_claim (h : SectionEntries root member es)
    (hdoc : Plain 8 (.obj root)) :
    (∃ e ∈ claimsOf es, e.1.asStr = name) ↔
      isClaimName name = true ∧ contains (sectionOf root member) name = true := by
  constructor
  · rintro ⟨_, he, rfl⟩
    obtain ⟨hnm, _, hv, -⟩ := (h.mem_claimsOf hdoc).1 he
    exact ⟨hnm, by simp [contains, hv]⟩
  · rintro ⟨hnm, hcon⟩
    obtain ⟨hpl, hrel⟩ := Bool.and_eq_true_iff.1 hnm
    obtain ⟨claim, hcl⟩ := Option.isSome_iff_exists.1 hrel
    obtain ⟨rfl, -⟩ := ReleasableClaim.parse_eq_some.1 hcl
    obtain ⟨req, hreq⟩ := Option.isSome_iff_exists.1 (h.isSome_lookup.2 ⟨hpl, hcon⟩)
    exact ⟨(claim, req), (h.mem_claimsOf hdoc).2 ⟨hnm, (h.lookup_eq_some.1 hreq).2⟩, rfl⟩

theorem AliasesFrom.exists_alias {aliases : Entries String ClaimRequest}
    (h : AliasesFrom ms aliases) :
    (∃ e ∈ aliases, Text.cons ':' e.1 = name) ↔
      Text.startsWith ':' name = true ∧ contains ms name = true := by
  have hkey : ∀ short, (∃ e ∈ aliases, e.1 = short) ↔
      contains ms (Text.cons ':' short) = true := by
    intro short
    rw [← h.named, contains, isSome_lookup_iff]
    constructor
    · rintro ⟨e, he, rfl⟩
      exact ⟨e.2, he⟩
    · rintro ⟨req, he⟩
      exact ⟨_, he, rfl⟩
  constructor
  · rintro ⟨e, he, rfl⟩
    exact ⟨Text.startsWith_cons .., (hkey e.1).1 ⟨e, he, rfl⟩⟩
  · rintro ⟨hali, hcon⟩
    obtain ⟨short, hsh⟩ : ∃ short, Text.strip ':' name = some short :=
      Option.ne_none_iff_exists'.1 (by simp [Text.strip_eq_none, hali])
    obtain rfl := Text.strip_eq_some.1 hsh
    obtain ⟨e, he, rfl⟩ := (hkey short).2 hcon
    exact ⟨e, he, rfl⟩

section

variable (h : ReadFrom req root idEntries userEntries) (hdoc : Plain 8 (.obj root))
include h hdoc

/-- The members of the stored `id_token` section: those of the document that are understood, and
`acr` when either section asks for it. -/
theorem ReadFrom.mem_keys_id :
    name ∈ keys req.idContent.json ↔
      (isRecognised name = true ∧ contains (sectionOf root "id_token") name = true) ∨
        ("acr" = name ∧ contains (sectionOf root "userinfo") "acr" = true) := by
  have hpl : isPlainName "acr" = true := by decide
  have hacr : req.acr.isSome ↔ contains (sectionOf root "id_token") "acr" = true ∨
      contains (sectionOf root "userinfo") "acr" = true := by
    rw [h.acr, Option.isSome_or, Bool.or_eq_true, h.id.isSome_lookup, h.user.isSome_lookup]
    simp [hpl]
  have hrl : (∃ role ∈ req.roleClaims, role.asStr = name) ↔
      (RoleClaim.parse name).isSome ∧
        contains (sectionOf root "id_token") name = true := by
    have hpl : ∀ role : RoleClaim, isPlainName role.asStr = true := by rintro (_ | _) <;> decide
    simp only [h.roleClaims, mem_roleClaimsOf, h.id.isSome_lookup, Option.isSome_iff_exists,
      RoleClaim.parse_eq_some]
    grind
  rw [Content.mem_keys_json (h.accepted hdoc).id, (h.aliases hdoc).1.exists_alias]
  simp only [idContent, (parseIdaSection_ok h.idaIdToken).1, hrl, hacr, h.idToken,
    h.id.exists_claim hdoc, isRecognised, Bool.or_eq_true, decide_eq_true_eq]
  constructor
  · rintro (⟨hali, hin⟩ | ⟨hin, rfl⟩ | ⟨hrl, hin⟩ | ⟨hin | hin, rfl⟩ | ⟨hcl, hin⟩)
    · exact .inl ⟨by simp [hali], hin⟩
    · exact .inl ⟨by simp, hin⟩
    · exact .inl ⟨by simp [hrl], hin⟩
    · exact .inl ⟨by simp, hin⟩
    · exact .inr ⟨rfl, hin⟩
    · exact .inl ⟨by simp [hcl], hin⟩
  · rintro (⟨(((hali | rfl) | rfl) | hrl) | hcl, hin⟩ | ⟨rfl, hin⟩)
    · exact .inl ⟨hali, hin⟩
    · exact .inr (.inl ⟨hin, rfl⟩)
    · exact .inr (.inr (.inr (.inl ⟨.inl hin, rfl⟩)))
    · exact .inr (.inr (.inl ⟨hrl, hin⟩))
    · exact .inr (.inr (.inr (.inr ⟨hcl, hin⟩)))
    · exact .inr (.inr (.inr (.inl ⟨.inr hin, rfl⟩)))

theorem ReadFrom.length_id_le : req.idContent.json.length ≤ maxClaims ↔ roomForAcr root = true := by
  have hso := (plain_obj.1 (plain_sectionOf hdoc "id_token")).1
  have hkp := hso.filter fun m => isRecognised m.1
  have hmem : ∀ name, name ∈ keys
      ((sectionOf root "id_token").filter fun m => isRecognised m.1) ↔ isRecognised name = true ∧
        contains (sectionOf root "id_token") name = true := by
    intro name
    rw [mem_keys, lookup_filter (fun name => isRecognised name)]
    cases isRecognised name <;> simp [contains]
  rw [← req.idContent.sorted_json.card_keys]
  simp only [roomForAcr, Bool.or_eq_true, Bool.not_eq_true', decide_eq_true_eq]
  by_cases hmv : contains (sectionOf root "id_token") "acr" = false ∧
      contains (sectionOf root "userinfo") "acr" = true
  · -- `acr` is one member more
    have hks : keys req.idContent.json = insert "acr" (keys
        ((sectionOf root "id_token").filter fun m => isRecognised m.1)) := by
      ext name
      rw [h.mem_keys_id hdoc, Finset.mem_insert, hmem, hmv.2]
      tauto
    have hnew : "acr" ∉ keys
        ((sectionOf root "id_token").filter fun m => isRecognised m.1) := by
      simp [hmem, hmv.1]
    rw [hks, Finset.card_insert_of_notMem hnew, hkp.card_keys, hmv.1, hmv.2]
    simp only [Bool.false_eq_true, Bool.true_eq_false, false_or]
    exact Nat.succ_le_iff
  · -- every member of the stored section is one of the document
    have hsub : keys req.idContent.json ⊆
        keys (sectionOf root "id_token") := by
      intro name hnm
      rw [mem_keys]
      rcases (h.mem_keys_id hdoc).1 hnm with ⟨-, hin⟩ | ⟨rfl, hu⟩
      · exact hin
      · by_contra hid
        exact hmv ⟨by simpa [contains] using hid, hu⟩
    have hle := (Finset.card_le_card hsub).trans (hso.card_keys.trans_le h.id.few)
    refine iff_of_true hle ?_
    rw [not_and_or, Bool.not_eq_false, Bool.not_eq_true] at hmv
    exact .inl hmv

theorem ReadFrom.length_user_le : req.userContent.json.length ≤ maxClaims := by
  have hso := (plain_obj.1 (plain_sectionOf hdoc "userinfo")).1
  have hsub : keys req.userContent.json ⊆
      keys (sectionOf root "userinfo") := by
    intro _ hnm
    rw [Content.mem_keys_json (h.accepted hdoc).user, (h.aliases hdoc).2.exists_alias] at hnm
    simp only [userContent, (parseIdaSection_ok h.idaUserinfo).1, h.userinfo,
      h.user.exists_claim hdoc] at hnm
    rw [mem_keys]
    rcases hnm with ⟨-, hin⟩ | ⟨hin, rfl⟩ | ⟨_, hrl, -⟩ | ⟨hacr, -⟩ | ⟨-, hin⟩
    · exact hin
    · exact hin
    · simp at hrl
    · simp at hacr
    · exact hin
  rw [← req.userContent.sorted_json.card_keys]
  exact (Finset.card_le_card hsub).trans (hso.card_keys.trans_le h.user.few)

end

/-! ### The round trip -/

variable (serde : Serde)

/-- What an accepted text says, and that its stored form is short enough. -/
theorem parse_ok :
    parse serde raw = .ok req ↔ raw.utf8ByteSize ≤ maxLen ∧
    ∃ root, serde.fromStr raw = some (.obj root) ∧ Plain 8 (.obj root) ∧ readRoot root = .ok req ∧
    (serde.toString req.toJson).utf8ByteSize ≤ maxLen := by
  simp only [parse, bind_ok, refuseIf_ok, exists_const, okOr_ok, pure_ok, not_lt, Bool.not_eq_true]
  constructor
  · rintro ⟨hlen, doc, hdo, hdep, hnms, root, hrt, _, hrd, hsto, rfl⟩
    cases doc with
    | obj =>
      cases hrt
      exact ⟨hlen, root, hdo, ⟨serde.wellFormed_of_fromStr hdo, hnms, hdep⟩, hrd, hsto⟩
    | _ => cases hrt
  · rintro ⟨hlen, root, hdo, hpl, hrd, hsto⟩
    exact ⟨hlen, _, hdo, hpl.shallow, hpl.noSentinel, root, rfl, req, hrd, hsto, rfl⟩

/-- Reading a document that is plain is reading the document itself. -/
theorem fromJson_ok (hpl : Plain 127 v) :
    fromJson serde v = .ok req ↔ (serde.toString v).utf8ByteSize ≤ maxLen ∧
    ∃ root, v = .obj root ∧ Plain 8 v ∧ readRoot root = .ok req ∧
    (serde.toString req.toJson).utf8ByteSize ≤ maxLen := by
  rw [fromJson, parse_ok, serde.fromStr_toString hpl]
  grind

/-- The stored form keeps to the bounds of the reader. -/
def fits (request : ClaimsRequest) : Bool :=
  (serde.toString request.toJson).utf8ByteSize ≤ maxLen && request.toJson.depth ≤ maxDepth &&
    request.idContent.json.length ≤ maxClaims && request.userContent.json.length ≤ maxClaims

/-- **Reading a stored request.**  What the reader returns is the request that was stored, and it
returns exactly when the stored form keeps to its bounds. -/
theorem Accepted.fromJson_toJson (h : req.Accepted) (hpl : Plain 127 req.toJson)
    {result : ClaimsRequest} :
    fromJson serde req.toJson = .ok result ↔ result = req ∧ fits serde req = true := by
  have hrd := serde.fromStr_toString hpl
  rw [toJson_eq] at hrd hpl
  rw [fromJson, parse_ok, fits, toJson_eq]
  simp only [Bool.and_eq_true, decide_eq_true_eq]
  constructor
  · rintro ⟨hlen, root, hrt, hdoc, hres, -⟩
    obtain rfl : req.rootJson = root := by simpa using hrd.symm.trans hrt
    obtain ⟨hres, hid, hu⟩ := h.readRoot_rootJson.1 hres
    exact ⟨hres, ⟨⟨hlen, hdoc.shallow⟩, hid⟩, hu⟩
  · rintro ⟨rfl, ⟨⟨hlen, hdep⟩, hid⟩, hu⟩
    refine ⟨hlen, _, hrd, { hpl with shallow := hdep }, ?_, by rwa [toJson_eq]⟩
    exact h.readRoot_rootJson.2 ⟨rfl, hid, hu⟩

/-- The stored form of an accepted request keeps to the bounds exactly when the document is
restorable: its length was checked when it was accepted. -/
theorem ReadFrom.fits_iff (h : ReadFrom req root idEntries userEntries) (hdoc : Plain 8 (.obj root))
    (hlen : (serde.toString req.toJson).utf8ByteSize ≤ maxLen) :
    fits serde req = true ↔ restorable root = true := by
  rw [restorable, Bool.and_eq_true, ← h.depth_rootJson_le hdoc, ← h.length_id_le hdoc, ← toJson_eq]
  simp [fits, hlen, h.length_user_le hdoc]

/-- What is known of an accepted request when it is stored. -/
theorem parse_sound (h : parse serde raw = .ok req) : req.Accepted ∧ Plain 9 req.toJson := by
  obtain ⟨-, _, -, hdoc, hrd, -⟩ := (parse_ok serde).1 h
  obtain ⟨_, _, hfr⟩ := readRoot_ok.1 hrd
  exact ⟨hfr.accepted hdoc, toJson_eq req ▸ hfr.plain_rootJson hdoc⟩

theorem fits_iff_restorable {root : Object} (hraw : serde.fromStr raw = some (.obj root))
    (h : parse serde raw = .ok req) : fits serde req = true ↔ restorable root = true := by
  obtain ⟨-, root', hrt', hdoc, hrd, hlen⟩ := (parse_ok serde).1 h
  obtain rfl : root = root' := by simpa using hraw.symm.trans hrt'
  obtain ⟨_, _, hfr⟩ := readRoot_ok.1 hrd
  exact hfr.fits_iff serde hdoc hlen

theorem default_sound : ClaimsRequest.default.Accepted ∧ Plain 9 ClaimsRequest.default.toJson := by
  have hdoc : Plain 8 (.obj []) := plain_obj_nil 7
  obtain ⟨_, _, hfr⟩ :=
    readRoot_ok.1 (show readRoot [] = .ok ClaimsRequest.default from rfl)
  exact ⟨hfr.accepted hdoc, toJson_eq _ ▸ hfr.plain_rootJson hdoc⟩

/-- **The round trip.**  An accepted request reads back from its stored form exactly when the
document it was read from is restorable. -/
theorem fromJson_toJson_eq_ok {raw : String} {root : Object}
    (hraw : serde.fromStr raw = some (.obj root)) (h : parse serde raw = .ok req) :
    fromJson serde req.toJson = .ok req ↔ restorable root = true := by
  obtain ⟨hacc, hpl⟩ := parse_sound serde h
  rw [hacc.fromJson_toJson serde (hpl.mono (by decide)), fits_iff_restorable serde hraw h]
  exact and_iff_right rfl

/-- Asks for the email address in the ID token and, under `userinfo`, for a level of
authentication. -/
def emailRoot : Object :=
  [("id_token", .obj [("email", .obj [("essential", .bool true)])]),
    ("userinfo", .obj [("acr", .obj [("value", .str "urn:mfa")])])]

/-- What it is read to. -/
def emailRequest : ClaimsRequest :=
  { ClaimsRequest.default with
    idToken := [(.userAttribute .email, { essential := true, values := [] })]
    acr := some { essential := false, values := [.str "urn:mfa"] } }

theorem parse_emailRoot :
    parse .compact (Serde.compact.toString (.obj emailRoot)) = .ok emailRequest := by
  decide +kernel

theorem fromJson_toJson_email :
    parse .compact (Serde.compact.toString (.obj emailRoot)) = .ok emailRequest ∧
    fromJson .compact emailRequest.toJson = .ok emailRequest := by
  have hraw : Serde.compact.fromStr (Serde.compact.toString (.obj emailRoot)) =
      some (.obj emailRoot) := by decide +kernel
  exact ⟨parse_emailRoot, (fromJson_toJson_eq_ok _ hraw parse_emailRoot).2 (by decide +kernel)⟩

/-- A claim with one accepted value, as deep as a document allows. -/
def deepText : String := "\x7b\"id_token\":\x7b\"email\":\x7b\"value\":[[[[1]]]]\x7d\x7d\x7d"

/-- What it is read to. -/
def deepRequest : ClaimsRequest :=
  { ClaimsRequest.default with
    idToken := [(.userAttribute .email,
      { essential := false, values := [.arr [.arr [.arr [.arr [.num (.posInt 1)]]]]] })] }

/-- The list around the value is one level more than the reader takes. -/
theorem fromJson_toJson_deep : parse .compact deepText = .ok deepRequest ∧
    fromJson .compact deepRequest.toJson = .error .tooDeep :=
  ⟨by decide +kernel, by decide +kernel⟩

end ClaimsRequest

end AsteriusIdp
