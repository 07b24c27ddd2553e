import AsteriusIdp.Claims.Request

/-!
# Sections of the canonical form

What one section of a stored request holds (`Content`): claims, a request for `acr`, role claims,
a request for verified claims and aliases of transformed claims.  They are written into one
object by name, and no two of them share a name, so each can be looked up on its own and the
section reads back as it was written:

* `Content.lookup_json` : what stands under a name.
* `Content.Accepted.entries` : the plain members read back as the claims, `acr` and roles.
* `Content.Accepted.aliasMembers_json` : the aliases read back.
-/

namespace AsteriusIdp

open Fallible Json Entries ClaimsRequest

/-- What one section of a stored request holds. -/
structure Content where
  claims : Entries ReleasableClaim ClaimRequest
  acr : Option ClaimRequest
  roles : Finset RoleClaim
  ida : Option IdaRequest
  aliases : Entries String ClaimRequest

namespace Content

/-- The members for the role claims. -/
def rolesJson (content : Content) : List (String × Json) :=
  (RoleClaim.all.filter (· ∈ content.roles)).map fun claim => (claim.asStr, .obj [])

/-- The section as it is stored. -/
def json (content : Content) : Object :=
  let members := ClaimsRequest.sectionJson content.claims
  let members :=
    match content.acr with
    | some acr => Entries.insert members "acr" acr.toJson
    | none => members
  let members := Entries.insertAll members content.rolesJson
  let members := ClaimsRequest.addIda members content.ida
  Entries.insertAll members (AscRequest.aliasesJson content.aliases)

/-- What the sections of accepted requests meet. -/
structure Accepted (content : Content) : Prop where
  sorted : Entries.Sorted content.claims
  released : ∀ e ∈ content.claims, ReleasableClaim.isComputed e.1.asStr = false
  named : ∀ e ∈ content.claims, Text.startsWith ':' e.1.asStr = false
  ida : ∀ request, content.ida = some request → request.Accepted
  aliases : Entries.Sorted content.aliases

variable {content : Content}

/-! ### What stands under a name -/

theorem sorted_json (content : Content) : Sorted content.json := by
  have hcls : Sorted (match content.acr with
      | some acr =>
        Entries.insert (sectionJson content.claims) "acr" acr.toJson
      | none => sectionJson content.claims) := by
    cases content.acr with
    | none => exact Sorted.collect _
    | some => exact (Sorted.collect _).insert _ _
  refine Sorted.insertAll ?_ _
  cases content.ida with
  | none => exact hcls.insertAll _
  | some => exact (hcls.insertAll _).insert _ _

theorem lookup_rolesJson (content : Content) (name : String) :
    lookup content.rolesJson name =
      if ∃ claim ∈ content.roles, claim.asStr = name then some (.obj []) else none := by
  have hmem : ∀ v, (name, v) ∈ content.rolesJson ↔
      (∃ claim ∈ content.roles, claim.asStr = name) ∧ v = .obj [] := by
    intro v
    simp only [rolesJson, List.mem_map, List.mem_filter, decide_eq_true_eq, Prod.mk.injEq]
    constructor
    · rintro ⟨claim, ⟨-, hcl⟩, rfl, rfl⟩
      exact ⟨⟨claim, hcl, rfl⟩, rfl⟩
    · rintro ⟨⟨claim, hcl, rfl⟩, rfl⟩
      exact ⟨claim, ⟨by cases claim <;> decide, hcl⟩, rfl, rfl⟩
  split_ifs with h
  · cases hlk : lookup content.rolesJson name with
    | none =>
      have := isSome_lookup_iff.2 ⟨_, (hmem (.obj [])).2 ⟨h, rfl⟩⟩
      simp [hlk] at this
    | some v => rw [((hmem v).1 (mem_of_lookup hlk)).2]
  · rw [← Option.not_isSome_iff_eq_none, isSome_lookup_iff]
    rintro ⟨v, hv⟩
    exact h ((hmem v).1 hv).1

theorem pairwise_rolesJson (content : Content) :
    content.rolesJson.Pairwise fun e e' => e.1 ≠ e'.1 := by
  refine List.pairwise_map.2 (List.Pairwise.filter _ ?_)
  decide

/-- **What stands under a name**, by the kinds of members in the order they are written, the last
one first. -/
theorem lookup_json (h : content.Accepted) (name : String) :
    lookup content.json name =
      (lookup (AscRequest.aliasesJson content.aliases) name).or
        ((if name = "verified_claims" then content.ida.map IdaRequest.toJson else none).or
          ((if ∃ claim ∈ content.roles, claim.asStr = name then some (.obj []) else none).or
            ((if name = "acr" then content.acr.map ClaimRequest.toJson else none).or
              (lookup (mapEntries ReleasableClaim.asStr
                (fun _ => ClaimRequest.toJson) content.claims) name)))) := by
  have hcls : lookup (sectionJson content.claims) name =
      lookup (mapEntries ReleasableClaim.asStr
        (fun _ => ClaimRequest.toJson) content.claims) name :=
    lookup_collect (h.sorted.pairwise_mapEntries ReleasableClaim.asStr_injective) name
  have hacr : lookup (match content.acr with
      | some acr => Entries.insert (sectionJson content.claims) "acr" acr.toJson
      | none => sectionJson content.claims) name =
      (if name = "acr" then content.acr.map ClaimRequest.toJson else none).or
        (lookup (mapEntries ReleasableClaim.asStr
          (fun _ => ClaimRequest.toJson) content.claims) name) := by
    cases content.acr with
    | none => simp [hcls]
    | some acr =>
      rw [lookup_insert, hcls]
      by_cases hnm : name = "acr" <;> simp [hnm]
  have hida : ∀ ms : Object, lookup (addIda ms content.ida) name =
      (if name = "verified_claims" then content.ida.map IdaRequest.toJson else none).or
        (lookup ms name) := by
    intro _
    cases content.ida with
    | none => simp [addIda]
    | some =>
      rw [addIda, lookup_insert]
      by_cases hnm : name = "verified_claims" <;> simp [hnm]
  have hals : (AscRequest.aliasesJson content.aliases).Pairwise fun e e' => e.1 ≠ e'.1 :=
    h.aliases.pairwise_mapEntries (Text.cons_injective ':')
  rw [json, lookup_insertAll hals, hida,
    lookup_insertAll content.pairwise_rolesJson, lookup_rolesJson, hacr]

/-! The names of the kinds do not overlap. -/

theorem isSerdeJsonSentinel_cons (name : String) :
    isSerdeJsonSentinel (Text.cons ':' name) = false := by
  have hpl : ∀ sentinel ∈ serdeJsonSentinels, Text.startsWith ':' sentinel = false := by decide
  by_contra hse
  rw [Bool.not_eq_false, isSerdeJsonSentinel_iff] at hse
  simpa using hpl _ hse

theorem lookup_aliasesJson_of_plain {name : String} (hnm : Text.startsWith ':' name = false)
    (aliases : Entries String ClaimRequest) :
    lookup (AscRequest.aliasesJson aliases) name = none := by
  refine lookup_mapEntries_eq_none fun e _ heq => ?_
  rw [← heq, Text.startsWith_cons] at hnm
  cases hnm

theorem lookup_claims_of_ne {name : String} (hnm : ∀ e ∈ content.claims, e.1.asStr ≠ name) :
    lookup (mapEntries ReleasableClaim.asStr
      (fun _ => ClaimRequest.toJson) content.claims) name = none :=
  lookup_mapEntries_eq_none hnm

section

variable (h : content.Accepted)
include h

theorem lookup_json_alias (name : String) :
    lookup content.json (Text.cons ':' name) =
      (lookup content.aliases name).map ClaimRequest.toJson := by
  have hne : ∀ other, Text.startsWith ':' other = false → Text.cons ':' name ≠ other := by
    rintro _ hoth rfl
    simp at hoth
  have hrol : ¬∃ claim ∈ content.roles, claim.asStr = Text.cons ':' name := by
    rintro ⟨claim, -, heq⟩
    exact hne _ (by cases claim <;> decide) heq.symm
  rw [lookup_json h, lookup_claims_of_ne fun e he heq => hne _ (h.named e he) heq.symm,
    if_neg (hne _ (by decide)), if_neg hrol, if_neg (hne _ (by decide)), AscRequest.aliasesJson,
    lookup_mapEntries (Text.cons_injective ':')]
  simp

theorem lookup_json_ida :
    lookup content.json "verified_claims" = content.ida.map IdaRequest.toJson := by
  have hrol : ¬∃ claim ∈ content.roles, claim.asStr = "verified_claims" := by
    rintro ⟨claim, -, heq⟩
    cases claim <;> exact absurd heq (by decide)
  rw [lookup_json h, lookup_aliasesJson_of_plain (by decide), lookup_claims_of_ne fun e _ =>
    e.1.asStr_ne_of_mem_serverIssued (by decide) (by decide), if_neg hrol]
  simp

theorem lookup_json_acr : lookup content.json "acr" = content.acr.map ClaimRequest.toJson := by
  have hrol : ¬∃ claim ∈ content.roles, claim.asStr = "acr" := by
    rintro ⟨claim, -, heq⟩
    cases claim <;> exact absurd heq (by decide)
  rw [lookup_json h, lookup_aliasesJson_of_plain (by decide),
    lookup_claims_of_ne fun e _ => asStr_ne_acr e.1, if_neg hrol]
  simp

theorem lookup_json_role (claim : RoleClaim) :
    lookup content.json claim.asStr = if claim ∈ content.roles then some (.obj []) else none := by
  have hcls : ∀ e ∈ content.claims, e.1.asStr ≠ claim.asStr := by
    intro e he heq
    have hno := roleClaim_parse_asStr e.1 (h.released e he)
    rw [heq, RoleClaim.parse_eq_some.2 rfl] at hno
    cases hno
  have hpl : Text.startsWith ':' claim.asStr = false := by cases claim <;> decide
  have hida : claim.asStr ≠ "verified_claims" := by cases claim <;> decide
  have hacr : claim.asStr ≠ "acr" := by cases claim <;> decide
  rw [lookup_json h, lookup_aliasesJson_of_plain hpl, lookup_claims_of_ne hcls]
  simp [hida, hacr, RoleClaim.asStr_injective.eq_iff]

theorem lookup_json_claim {claim : ReleasableClaim}
    (hcmp : ReleasableClaim.isComputed claim.asStr = false)
    (hnm : Text.startsWith ':' claim.asStr = false) :
    lookup content.json claim.asStr = (lookup content.claims claim).map ClaimRequest.toJson := by
  have hrol : ¬∃ role ∈ content.roles, role.asStr = claim.asStr := by
    rintro ⟨_, -, heq⟩
    have hno := roleClaim_parse_asStr claim hcmp
    rw [← heq, RoleClaim.parse_eq_some.2 rfl] at hno
    cases hno
  have hida : claim.asStr ≠ "verified_claims" :=
    claim.asStr_ne_of_mem_serverIssued (by decide) (by decide)
  rw [lookup_json h, lookup_aliasesJson_of_plain hnm, if_neg hida, if_neg hrol,
    if_neg (asStr_ne_acr claim), lookup_mapEntries ReleasableClaim.asStr_injective]
  simp

/-- **The members of a stored section**, one for each thing it holds. -/
theorem mem_json {m : String × Json} :
    m ∈ content.json ↔
      (∃ e ∈ content.aliases, m = (Text.cons ':' e.1, e.2.toJson)) ∨
      (∃ req, content.ida = some req ∧ m = ("verified_claims", req.toJson)) ∨
      (∃ role ∈ content.roles, m = (role.asStr, .obj [])) ∨
      (∃ req, content.acr = some req ∧ m = ("acr", req.toJson)) ∨
      ∃ e ∈ content.claims, m = (e.1.asStr, e.2.toJson) := by
  obtain ⟨_, _⟩ := m
  constructor
  · intro hm
    have hlk := content.sorted_json.lookup_of_mem hm
    rw [lookup_json h] at hlk
    simp only [Option.or_eq_some_iff, Option.ite_none_right_eq_some, Option.map_eq_some_iff,
      Option.some.injEq] at hlk
    rcases hlk with hali | ⟨-, ⟨rfl, req, hida, rfl⟩ | ⟨-, ⟨⟨role, hrl, rfl⟩, rfl⟩ |
      ⟨-, ⟨rfl, req, hacr, rfl⟩ | ⟨-, hcl⟩⟩⟩⟩
    · obtain ⟨e, he, heq⟩ := List.mem_map.1 (mem_of_lookup hali)
      exact .inl ⟨e, he, heq.symm⟩
    · exact .inr (.inl ⟨req, hida, rfl⟩)
    · exact .inr (.inr (.inl ⟨role, hrl, rfl⟩))
    · exact .inr (.inr (.inr (.inl ⟨req, hacr, rfl⟩)))
    · obtain ⟨e, he, heq⟩ := List.mem_map.1 (mem_of_lookup hcl)
      exact .inr (.inr (.inr (.inr ⟨e, he, heq.symm⟩)))
  · intro hm
    refine mem_of_lookup ?_
    rcases hm with ⟨e, he, rfl, rfl⟩ | ⟨_, hida, rfl, rfl⟩ | ⟨_, hrl, rfl, rfl⟩ |
      ⟨_, hacr, rfl, rfl⟩ | ⟨e, he, rfl, rfl⟩
    · rw [lookup_json_alias h, h.aliases.lookup_of_mem he]
      rfl
    · rw [lookup_json_ida h, hida]
      rfl
    · rw [lookup_json_role h, if_pos hrl]
    · rw [lookup_json_acr h, hacr]
      rfl
    · rw [lookup_json_claim h (h.released e he) (h.named e he), h.sorted.lookup_of_mem he]
      rfl

theorem mem_keys_json {name : String} :
    name ∈ keys content.json ↔
      (∃ e ∈ content.aliases, Text.cons ':' e.1 = name) ∨
      (content.ida.isSome ∧ "verified_claims" = name) ∨
      (∃ role ∈ content.roles, role.asStr = name) ∨ (content.acr.isSome ∧ "acr" = name) ∨
      ∃ e ∈ content.claims, e.1.asStr = name := by
  rw [mem_keys, isSome_lookup_iff]
  simp only [mem_json h, Prod.mk.injEq, Option.isSome_iff_exists]
  constructor
  · rintro ⟨_, ⟨e, he, rfl, -⟩ | ⟨req, hida, rfl, -⟩ | ⟨role, hrl, rfl, -⟩ |
      ⟨req, hacr, rfl, -⟩ | ⟨e, he, rfl, -⟩⟩
    · exact .inl ⟨e, he, rfl⟩
    · exact .inr (.inl ⟨⟨req, hida⟩, rfl⟩)
    · exact .inr (.inr (.inl ⟨role, hrl, rfl⟩))
    · exact .inr (.inr (.inr (.inl ⟨⟨req, hacr⟩, rfl⟩)))
    · exact .inr (.inr (.inr (.inr ⟨e, he, rfl⟩)))
  · rintro (⟨e, he, rfl⟩ | ⟨⟨req, hida⟩, rfl⟩ | ⟨role, hrl, rfl⟩ |
      ⟨⟨req, hacr⟩, rfl⟩ | ⟨e, he, rfl⟩)
    · exact ⟨_, .inl ⟨e, he, rfl, rfl⟩⟩
    · exact ⟨_, .inr (.inl ⟨req, hida, rfl, rfl⟩)⟩
    · exact ⟨_, .inr (.inr (.inl ⟨role, hrl, rfl, rfl⟩))⟩
    · exact ⟨_, .inr (.inr (.inr (.inl ⟨req, hacr, rfl, rfl⟩)))⟩
    · exact ⟨_, .inr (.inr (.inr (.inr ⟨e, he, rfl, rfl⟩)))⟩

/-- Another request for `acr` changes the member under its name. -/
theorem Accepted.json_setAcr (acr : ClaimRequest) :
    { content with acr := some acr }.json = Entries.insert content.json "acr" acr.toJson := by
  have h' : { content with acr := some acr }.Accepted := { h with }
  refine (sorted_json _).ext (content.sorted_json.insert _ _) fun name => ?_
  rw [lookup_insert]
  split_ifs with hnm
  · rw [hnm, lookup_json_acr h']
    rfl
  · simp [lookup_json h', lookup_json h, hnm]

/-- A section whose claims accept plain values is plain. -/
theorem Accepted.plain_json {n : ℕ} (hn : 3 ≤ n) (hals : ∀ e ∈ content.aliases, e.2.values = [])
    (hacr : ∀ req, content.acr = some req → ∀ v ∈ req.values, Plain (n + 1) v)
    (hcls : ∀ e ∈ content.claims, ∀ v ∈ e.2.values, Plain (n + 1) v) :
    Plain (n + 4) (.obj content.json) := by
  refine plain_obj.2 ⟨content.sorted_json, fun m hm => ?_⟩
  rcases (mem_json h).1 hm with ⟨e, he, rfl⟩ | ⟨req, -, rfl⟩ | ⟨role, -, rfl⟩ |
    ⟨req, hreq, rfl⟩ | ⟨e, he, rfl⟩
  · exact ⟨isSerdeJsonSentinel_cons _, ClaimRequest.plain_toJson (by simp [hals e he])⟩
  · exact ⟨(by decide : isSerdeJsonSentinel "verified_claims" = false),
      req.plain_toJson.mono (by omega)⟩
  · exact ⟨by cases role <;> decide, plain_obj_nil _⟩
  · exact ⟨(by decide : isSerdeJsonSentinel "acr" = false),
      ClaimRequest.plain_toJson (hacr req hreq)⟩
  · exact ⟨e.1.isSerdeJsonSentinel_asStr, ClaimRequest.plain_toJson (hcls e he)⟩

/-- How deep a section nests is decided by the values its claims accept. -/
theorem Accepted.depth_json_le {n : ℕ} (hn : 3 ≤ n)
    (hals : ∀ e ∈ content.aliases, e.2.values = []) :
    (Json.obj content.json).depth ≤ n + 4 ↔
      (∀ req, content.acr = some req → ∀ v ∈ req.values, v.depth ≤ n + 1) ∧
      ∀ e ∈ content.claims, ∀ v ∈ e.2.values, v.depth ≤ n + 1 := by
  rw [depth_obj_le]
  constructor
  · intro hdep
    refine ⟨fun req hreq => ?_, fun e he => ?_⟩
    · exact ClaimRequest.depth_toJson_le.1
        (hdep _ ((mem_json h).2 (.inr (.inr (.inr (.inl ⟨req, hreq, rfl⟩))))))
    · exact ClaimRequest.depth_toJson_le.1
        (hdep _ ((mem_json h).2 (.inr (.inr (.inr (.inr ⟨e, he, rfl⟩))))))
  · rintro ⟨hacr, hcls⟩ m hm
    rcases (mem_json h).1 hm with ⟨e, he, rfl⟩ | ⟨req, -, rfl⟩ | ⟨role, -, rfl⟩ |
      ⟨req, hreq, rfl⟩ | ⟨e, he, rfl⟩
    · exact ClaimRequest.depth_toJson_le.2 (by simp [hals e he])
    · exact req.plain_toJson.shallow.trans (by omega)
    · exact (plain_obj_nil _).shallow
    · exact ClaimRequest.depth_toJson_le.2 (hacr req hreq)
    · exact ClaimRequest.depth_toJson_le.2 (hcls e he)

end

/-! ### Reading a section back -/

/-- The aliases of a stored section are those of the request. -/
theorem Accepted.aliasMembers_json (h : content.Accepted) :
    aliasMembers content.json = mapEntries id (fun _ => ClaimRequest.toJson) content.aliases := by
  refine (sorted_aliasMembers content.sorted_json).ext (h.aliases.mapEntries strictMono_id) ?_
  intro name
  rw [lookup_aliasMembers content.sorted_json, lookup_json_alias h]
  exact (lookup_mapEntries (f := id) (g := fun _ => ClaimRequest.toJson)
    Function.injective_id content.aliases name).symm

/-- Every plain member of a stored section is a claim request. -/
theorem exists_parseEntry_json (h : content.Accepted) {m : String × Json} (hm : m ∈ content.json)
    (hpl : isPlainName m.1 = true) : ∃ req, parseEntry m.2 = .ok req := by
  rcases (mem_json h).1 hm with ⟨e, -, rfl⟩ | ⟨req, -, rfl⟩ | ⟨_, -, rfl⟩ |
    ⟨req, -, rfl⟩ | ⟨e, -, rfl⟩
  · simp [isPlainName] at hpl
  · simp [isPlainName] at hpl
  · exact ⟨_, rfl⟩
  · exact ⟨req, parseEntry_toJson req⟩
  · exact ⟨e.2, parseEntry_toJson e.2⟩

theorem toOption_parseEntry_toJson (o : Option ClaimRequest) :
    ((o.map ClaimRequest.toJson).bind fun v => (parseEntry v).toOption) = o := by
  cases o with
  | none => rfl
  | some => simp [parseEntry_toJson, Except.toOption]

/-- **A section reads back.**  The plain members of a stored section are read as its claims, its
request for `acr` and its role claims. -/
theorem Accepted.entries (h : content.Accepted) :
    ∃ es, mapValuesM parseEntry (content.json.filter fun m => isPlainName m.1) = .ok es ∧
    claimsOf es = content.claims ∧ lookup es "acr" = content.acr ∧
    roleClaimsOf es = content.roles := by
  obtain ⟨es, hes⟩ := exists_mapValuesM (f := parseEntry)
    (m := content.json.filter fun m => isPlainName m.1) fun m hm => by
      obtain ⟨hm, hpl⟩ := List.mem_filter.1 hm
      exact exists_parseEntry_json h hm hpl
  have hso : Sorted es :=
    sorted_mapValuesM hes (content.sorted_json.filter _)
  have hlk := lookup_plainEntries hes
  refine ⟨es, hes, ?_, ?_, ?_⟩
  · refine (sorted_claimsOf es).ext h.sorted fun claim => ?_
    have hno : (∀ req, (claim, req) ∉ content.claims) →
        lookup content.claims claim = none := by
      intro hnot
      rw [← Option.not_isSome_iff_eq_none, isSome_lookup_iff]
      rintro ⟨req, hmem⟩
      exact hnot req hmem
    rw [lookup_claimsOf hso, hlk]
    cases hcmp : ReleasableClaim.isComputed claim.asStr with
    | true =>
      rw [hno fun req hmem => by simpa [hcmp] using h.released _ hmem]
      rfl
    | false =>
      have hida : claim.asStr ≠ "verified_claims" :=
        claim.asStr_ne_of_mem_serverIssued (by decide) (by decide)
      cases hnm : Text.startsWith ':' claim.asStr with
      | true =>
        rw [hno fun req hmem => by simpa [hnm] using h.named _ hmem]
        simp [isPlainName, hnm]
      | false =>
        simp only [isPlainName, hida, hnm, ne_eq, not_false_eq_true, decide_true, Bool.not_false,
          Bool.and_self, if_true, Bool.false_eq_true, lookup_json_claim h hcmp hnm]
        exact toOption_parseEntry_toJson _
  · rw [hlk, lookup_json_acr h]
    exact toOption_parseEntry_toJson _
  · ext claim
    have hpl : isPlainName claim.asStr = true := by cases claim <;> decide
    rw [mem_roleClaimsOf, hlk, lookup_json_role h]
    split_ifs with hmem <;> simp [hmem, parseEntry, Except.toOption]

end Content

end AsteriusIdp
