import AsteriusIdp.Policy.Document

/-!
# Reading back the leaves of a condition

For each test a condition can make: what the reader accepts (`Condition.NodeValid`), that it
accepts what the encoder writes, and that the encoder writes no more than was read.

A `grant` test is the exception.  The reader takes a member that is null for one that is left out,
so it accepts a test all of whose members are null; the encoder writes that as an empty object,
which the reader refuses (`GrantMatch.Named`).
-/

namespace AsteriusIdp.Policy

open Fallible Json Entries TrustedPredicate GrantMatch Condition

variable {floatSize : ℚ → ℕ}

/-! ### Texts -/

variable {max : ℕ} {s path member name : String} {v body : Json} {object : Object}
  {o : Option String} {source : Source} {test : AttributeTest} {c : Condition}
  {owner : Option RoleOwner} {matcher : GrantMatch}

theorem isText_iff :
    isText max s = true ↔ s ≠ "" ∧ s.utf8ByteSize ≤ max ∧ s.toList.any isControl = false := by
  simp [isText, and_assoc]

theorem boundedString_ok :
    boundedString v path = .ok s ↔ v = .str s ∧ isText maxString s = true := by
  simp [boundedString, isText_iff, and_assoc]

/-- A member that is left out or null, or a text of at most `max` bytes. -/
def ReadsText (max : ℕ) (object : Object) (member : String) : Option String → Prop
  | none => object.lookup member = none ∨ object.lookup member = some .null
  | some s => object.lookup member = some (.str s) ∧ isText max s = true

theorem optionalString_ok :
    optionalString object member path = .ok o ↔ ReadsText maxString object member o := by
  unfold optionalString
  cases h : object.lookup member with
  | none => cases o <;> simp [ReadsText, h]
  | some v =>
    cases v <;> cases o <;> simp [ReadsText, h, boundedString_ok]

theorem optionalReason_ok :
    optionalReason object member path = .ok o ↔ ReadsText maxReason object member o := by
  unfold optionalReason
  cases h : object.lookup member with
  | none => cases o <;> simp [ReadsText, h]
  | some v =>
    cases v with
    | str =>
      cases o with
      | none => simp [ReadsText, h]
      | some =>
        simp only [ReadsText, h, bind_ok, refuseIf_ok, pure_ok, Option.some.injEq,
          Json.str.injEq, isText_iff, not_or, not_lt, exists_const]
        grind
    | _ => cases o <;> simp [ReadsText, h]

theorem ReadsText.isText (h : ReadsText max object member o) : ∀ s ∈ o, isText max s = true := by
  rintro _ rfl
  exact h.2

/-- A field that was written as it is reads as itself. -/
theorem ReadsText.of_lookup (h : object.lookup member = o.map .str)
    (htx : ∀ s ∈ o, Policy.isText max s = true) : ReadsText max object member o := by
  cases o with
  | none => exact .inl h
  | some s => exact ⟨h, htx s rfl⟩

/-- What was read is no longer than the member it was read from. -/
theorem ReadsText.size_le (h : ReadsText max object member o) (hv : o.map .str = some v) :
    ∃ w, object.lookup member = some w ∧ v.byteSize floatSize ≤ w.byteSize floatSize := by
  cases o with
  | none => cases hv
  | some =>
    cases hv
    exact ⟨_, h.1, le_rfl⟩

theorem boundedStrings_ok {index : ℕ} {vs : List Json} {texts : List String} :
    boundedStrings path index vs = .ok texts ↔
      vs = texts.map .str ∧ ∀ s ∈ texts, isText maxString s = true := by
  induction vs generalizing index texts with
  | nil => cases texts <;> simp [boundedStrings]
  | cons v vs ih =>
    simp only [boundedStrings, bind_ok, pure_ok, boundedString_ok, ih]
    constructor
    · rintro ⟨s, ⟨rfl, hs⟩, rest, ⟨rfl, hrs⟩, rfl⟩
      exact ⟨rfl, List.forall_mem_cons.2 ⟨hs, hrs⟩⟩
    · rintro ⟨hvs, htxt⟩
      cases texts with
      | nil => cases hvs
      | cons s rest =>
        obtain ⟨rfl, rfl⟩ := List.cons.inj hvs
        obtain ⟨hs, hrs⟩ := List.forall_mem_cons.1 htxt
        exact ⟨s, ⟨rfl, hs⟩, rest, ⟨rfl, hrs⟩, rfl⟩

/-! ### What a test has to satisfy -/

/-- A literal is not long. -/
def literalValid (v : Json) : Bool :=
  match v with
  | .str raw => raw.utf8ByteSize ≤ maxString && !raw.toList.any isControl
  | .bool _ | .num _ | .null => true
  | .arr _ | .obj _ => false

/-- What parsing returns. -/
def AttributeTest.Valid : AttributeTest → Prop
  | .equals v => literalValid v = true
  | .in_ values => values.length ≤ maxValues ∧ ∀ v ∈ values, literalValid v = true

/-- What parsing returns. -/
def RoleOwner.Valid : RoleOwner → Prop
  | .tenant => True
  | .client id => isText maxString id = true ∧ id ≠ "tenant"

/-- What parsing returns. -/
def GrantResource.Valid : GrantResource → Prop
  | .theResource => True
  | .literal raw => isText maxString raw = true ∧ raw ≠ "$resource.id"

/-- What parsing returns. -/
structure GrantMatch.Valid (matcher : GrantMatch) : Prop where
  resource : ∀ r ∈ matcher.resource, r.Valid
  scope : ∀ s ∈ matcher.scope, isText maxString s = true
  detailType : ∀ s ∈ matcher.detailType, isText maxString s = true
  action : ∀ s ∈ matcher.action, isText maxString s = true
  client : ∀ s ∈ matcher.client, isText maxString s = true

/-- The matcher asks for something. -/
def GrantMatch.Named (matcher : GrantMatch) : Prop := ∃ f ∈ matcher.fields, f.2 ≠ none

/-- What parsing returns. -/
def TrustedPredicate.Valid : TrustedPredicate → Prop
  | .sensitivity value => value ∈ sensitivities
  | .networkZone value => isZoneName value = true
  | .authenticationAgeAtMost value => 60 ≤ value.toNat ∧ value.toNat ≤ 86400
  | .deviceCompliance value => value ∈ compliances

/-- What a node of an accepted condition satisfies. -/
def Condition.NodeValid : Condition → Prop
  | .attr _ name test => isText maxString name = true ∧ test.Valid
  | .group name => isText maxString name = true
  | .role owner name =>
    isText maxString name = true ∧ isRoleName name = true ∧ ∀ o ∈ owner, o.Valid
  | .grant matcher => matcher.Valid
  | .acrAtLeast value => isText maxString value = true
  | .trusted predicate => predicate.Valid
  | .all _ | .any _ | .not _ => True

/-- A node that the encoder does not empty. -/
def Condition.NodeNamed : Condition → Prop
  | .grant matcher => matcher.Named
  | _ => True

/-! ### Attributes -/

theorem Source.parse_eq_some {raw : String} :
    Source.parse raw = some source ↔ source.asStr = raw := by
  refine ⟨fun h => by simpa using List.find?_some h, ?_⟩
  rintro rfl
  cases source <;> decide

theorem boundedLiteral_ok {u : Unit} : boundedLiteral v path = .ok u ↔ literalValid v = true := by
  cases v <;> simp [boundedLiteral, literalValid]

theorem boundedLiterals_ok {index : ℕ} {vs : List Json} {u : Unit} :
    boundedLiterals path index vs = .ok u ↔ ∀ v ∈ vs, literalValid v = true := by
  induction vs generalizing index with
  | nil => simp [boundedLiterals]
  | cons v vs ih =>
    simp only [boundedLiterals, bind_ok, boundedLiteral_ok, ih]
    simp

/-- The members an attribute test reads. -/
def ReadsTest (object : Object) : AttributeTest → Prop
  | .equals v => object.lookup "equals" = some v ∧ object.lookup "in" = none
  | .in_ values => object.lookup "equals" = none ∧ object.lookup "in" = some (.arr values)

theorem parseTest_ok : parseTest object path = .ok test ↔ ReadsTest object test ∧ test.Valid := by
  unfold parseTest
  split
  · rename_i expected hequ hin
    simp only [bind_ok, boundedLiteral_ok, pure_ok, exists_const]
    cases test with
    | equals =>
      grind [ReadsTest, AttributeTest.Valid]
    | in_ => simp [ReadsTest, hequ]
  · rename_i values hequ hin
    simp only [bind_ok, okOr_ok, asArray_eq_some, refuseIf_ok, boundedLiterals_ok,
      pure_ok, exists_const, not_lt]
    cases test with
    | equals => simp [ReadsTest, hequ]
    | in_ =>
      grind [ReadsTest, AttributeTest.Valid]
  · rename_i hnot₁ hnot₂
    simp only [reduceCtorEq, false_iff, not_and]
    intro hrd
    cases test with
    | equals v => exact (hnot₁ v hrd.1 hrd.2).elim
    | in_ => exact (hnot₂ _ hrd.1 hrd.2).elim

theorem parseAttribute_ok :
    parseAttribute body path = .ok c ↔ ∃ object : Object, body = .obj object ∧
    ∃ source : Source, object.lookup "of" = some (.str source.asStr) ∧
    ∃ name, object.lookup "name" = some (.str name) ∧ isText maxString name = true ∧
    ∃ test, (ReadsTest object test ∧ test.Valid) ∧ .attr source name test = c := by
  simp [parseAttribute, Option.bind_eq_some_iff, Source.parse_eq_some, boundedString_ok,
    parseTest_ok]

/-- The members of an attribute test as they are written. -/
def attributeFields (source : Source) (name : String) (test : AttributeTest) :
    List (String × Option Json) :=
  [("of", some (.str source.asStr)), ("name", some (.str name))] ++ test.fields

theorem nodup_attributeFields (source : Source) (name : String) (test : AttributeTest) :
    ((attributeFields source name test).map Prod.fst).Nodup := by
  cases test <;> simp [attributeFields, AttributeTest.fields]

theorem parseAttribute_record (hnm : isText maxString name = true) (hte : test.Valid)
    (path : String) :
    parseAttribute (record (attributeFields source name test)) path =
      .ok (.attr source name test) := by
  refine parseAttribute_ok.2 ⟨_, rfl, source, ?_⟩
  cases test with
  | equals v =>
    obtain ⟨hof, hrd, hequ⟩ :=
      forall_lookup_recordMembers (nodup_attributeFields source name (.equals v))
    refine ⟨hof, name, hrd, hnm, .equals v, ⟨⟨hequ, ?_⟩, hte⟩, rfl⟩
    refine lookup_recordMembers_eq_none ?_
    simp [attributeFields, AttributeTest.fields]
  | in_ values =>
    obtain ⟨hof, hrd, hin⟩ :=
      forall_lookup_recordMembers (nodup_attributeFields source name (.in_ values))
    refine ⟨hof, name, hrd, hnm, .in_ values, ⟨⟨?_, hin⟩, hte⟩, rfl⟩
    refine lookup_recordMembers_eq_none ?_
    simp [attributeFields, AttributeTest.fields]

theorem size_attribute_le (hof : object.lookup "of" = some (.str source.asStr))
    (hnm : object.lookup "name" = some (.str name)) (hte : ReadsTest object test) :
    (record (attributeFields source name test)).byteSize floatSize ≤
      (Json.obj object).byteSize floatSize := by
  refine byteSize_record_le (nodup_attributeFields source name test) ?_
  cases test <;> simp [attributeFields, AttributeTest.fields, hof, hnm, hte.1, hte.2]

/-! ### Roles -/

/-- The member an owner is read from. -/
def ReadsOwner (object : Object) : Option RoleOwner → Prop
  | none => object.lookup "owner" = none ∨ object.lookup "owner" = some .null
  | some owner => object.lookup "owner" = some (.str owner.text) ∧ owner.Valid

theorem parseOwner_ok : parseOwner object path = .ok owner ↔ ReadsOwner object owner := by
  unfold parseOwner
  split
  · rename_i hno
    cases owner <;> simp [ReadsOwner, hno]
  · rename_i hnu
    cases owner <;> simp [ReadsOwner, hnu]
  · rename_i v hnu hv
    by_cases hten : v = .str "tenant"
    · subst hten
      rcases owner with _ | (_ | id) <;>
        simp [ReadsOwner, hv, RoleOwner.text, RoleOwner.Valid]
      exact fun h _ => h.symm
    · rw [if_neg hten]
      simp only [map_ok, boundedString_ok, Function.comp_apply]
      rcases owner with _ | (_ | id)
      · simpa [ReadsOwner, hv] using hnu
      · simp [ReadsOwner, hv, RoleOwner.text, hten]
      · simp only [ReadsOwner, hv, RoleOwner.text, RoleOwner.Valid, Option.some.injEq,
          RoleOwner.client.injEq, exists_eq_right]
        constructor
        · rintro ⟨rfl, htx⟩
          exact ⟨rfl, htx, by rintro rfl; exact hten rfl⟩
        · rintro ⟨rfl, htx, -⟩
          exact ⟨rfl, htx⟩

/-- The members of a role test. -/
def roleFields (owner : Option RoleOwner) (name : String) : List (String × Option Json) :=
  [("name", some (.str name)), ("owner", owner.map (.str ·.text))]

theorem parseRole_ok :
    parseRole body path = .ok c ↔ ∃ object : Object, body = .obj object ∧
    ∃ name, object.lookup "name" = some (.str name) ∧ isText maxString name = true ∧
    isRoleName name = true ∧ ∃ owner, ReadsOwner object owner ∧ .role owner name = c := by
  simp [parseRole, boundedString_ok, parseOwner_ok]

theorem nodup_roleFields (owner : Option RoleOwner) (name : String) :
    ((roleFields owner name).map Prod.fst).Nodup := by
  simp [roleFields]

theorem parseRole_record (hnm : isText maxString name = true) (hrl : isRoleName name = true)
    (hown : ∀ o ∈ owner, o.Valid) (path : String) :
    parseRole (record (roleFields owner name)) path = .ok (.role owner name) := by
  obtain ⟨hrd, hrea⟩ := forall_lookup_recordMembers (nodup_roleFields owner name)
  refine parseRole_ok.2 ⟨_, rfl, name, hrd, hnm, hrl, owner, ?_, rfl⟩
  cases owner with
  | none => exact .inl hrea
  | some owner => exact ⟨hrea, hown owner rfl⟩

theorem size_role_le (hnm : object.lookup "name" = some (.str name))
    (hown : ReadsOwner object owner) :
    (record (roleFields owner name)).byteSize floatSize ≤ (Json.obj object).byteSize floatSize := by
  refine byteSize_record_le (nodup_roleFields owner name) (.intro ?_ ?_)
  · rintro _ ⟨⟩
    exact ⟨_, hnm, le_rfl⟩
  · cases owner with
    | none => exact nofun
    | some =>
      rintro _ ⟨⟩
      exact ⟨_, hown.1, le_rfl⟩

/-! ### Grants -/

theorem GrantResource.text_ofText (raw : String) : (GrantResource.ofText raw).text = raw := by
  unfold GrantResource.ofText
  split_ifs with h
  · exact h.symm
  · rfl

theorem GrantResource.valid_ofText {raw : String} (h : isText maxString raw = true) :
    (GrantResource.ofText raw).Valid := by
  unfold GrantResource.ofText
  split_ifs with hraw
  · trivial
  · exact ⟨h, hraw⟩

theorem GrantResource.ofText_text {r : GrantResource} (h : r.Valid) :
    GrantResource.ofText r.text = r := by
  cases r with
  | theResource => exact if_pos rfl
  | literal => exact if_neg h.2

theorem GrantResource.isText_text {r : GrantResource} (h : r.Valid) :
    isText maxString r.text = true := by
  cases r with
  | theResource => decide
  | literal => exact h.1

theorem parseGrant_ok :
    parseGrant body path = .ok c ↔ ∃ object : Object, body = .obj object ∧ object ≠ [] ∧
    (∀ m ∈ object, m.1 ∈ grantMembers) ∧
    ∃ resource, ReadsText maxString object "resource" resource ∧
    ∃ scope, ReadsText maxString object "scope" scope ∧
    ∃ detailType, ReadsText maxString object "detail_type" detailType ∧
    ∃ action, ReadsText maxString object "action" action ∧
    ∃ client, ReadsText maxString object "client" client ∧
    .grant ⟨resource.map .ofText, scope, detailType, action, client⟩ = c := by
  simp [parseGrant, optionalString_ok]

theorem GrantMatch.nodup_fields (matcher : GrantMatch) :
    (matcher.fields.map Prod.fst).Nodup := by
  simp [fields]

theorem GrantMatch.recordMembers_ne_nil : recordMembers matcher.fields ≠ [] ↔ matcher.Named := by
  rw [ne_eq, recordMembers_eq_nil matcher.nodup_fields]
  push Not
  rfl

/-- The encoder's object for a valid matcher is read back, if it has a member. -/
theorem parseGrant_record (h : matcher.Valid) (hnm : matcher.Named) (path : String) :
    parseGrant (record matcher.fields) path = .ok (.grant matcher) := by
  obtain ⟨hres, hsc, hdet, hact, hcli⟩ :=
    forall_lookup_recordMembers matcher.nodup_fields
  refine parseGrant_ok.2 ⟨_, rfl, recordMembers_ne_nil.2 hnm, ?_,
    matcher.resource.map GrantResource.text, .of_lookup ?_ ?_, _, .of_lookup hsc h.scope,
    _, .of_lookup hdet h.detailType, _, .of_lookup hact h.action,
    _, .of_lookup hcli h.client, ?_⟩
  · intro m hm
    have hfld := List.mem_map_of_mem (f := Prod.fst) (mem_of_mem_recordMembers hm)
    simpa [fields, grantMembers] using hfld
  · rw [hres, Option.map_map]
    rfl
  · simp only [Option.mem_def, Option.map_eq_some_iff]
    rintro _ ⟨r, hr, rfl⟩
    exact GrantResource.isText_text (h.resource r hr)
  · obtain ⟨resource, _, _, _, _⟩ := matcher
    cases resource with
    | none => rfl
    | some r => simp [GrantResource.ofText_text (h.resource r rfl)]

/-- An empty object is never read as a grant test. -/
theorem named_of_parseGrant (h : parseGrant (record matcher.fields) path = .ok c) :
    matcher.Named := by
  obtain ⟨_, ⟨⟩, hne, -⟩ := parseGrant_ok.1 h
  exact recordMembers_ne_nil.1 hne

theorem size_grant_le {resource scope detailType action client : Option String}
    (hres : ReadsText maxString object "resource" resource)
    (hsc : ReadsText maxString object "scope" scope)
    (hdet : ReadsText maxString object "detail_type" detailType)
    (hact : ReadsText maxString object "action" action)
    (hcli : ReadsText maxString object "client" client) :
    (record (fields
        ⟨resource.map .ofText, scope, detailType, action, client⟩)).byteSize floatSize ≤
      (Json.obj object).byteSize floatSize := by
  refine byteSize_record_le (nodup_fields _) ?_
  simp only [fields, Option.map_map, Function.comp_def, GrantResource.text_ofText]
  exact ⟨fun _ => hres.size_le, fun _ => hsc.size_le, fun _ => hdet.size_le,
    fun _ => hact.size_le, fun _ => hcli.size_le⟩

/-! ### Trusted predicates -/

theorem filter_asStr_eq_some {p : String → Bool} :
    v.asStr.filter p = some s ↔ v = .str s ∧ p s = true := by
  rw [Option.filter_eq_some_iff, asStr_eq_some]

theorem TrustedPredicate.parse_ok {p : TrustedPredicate} :
    parse name v = .ok (some p) ↔ p.toJson = (name, v) ∧ p.Valid := by
  constructor
  · intro h
    unfold parse at h
    split at h
    case h_3 =>
      simp only [map_ok, okOr_ok, Option.filter_eq_some_iff, asU64_eq_some,
        decide_eq_true_eq, Option.some.injEq] at h
      obtain ⟨_, ⟨⟨k, rfl, rfl⟩, hlow, hhi⟩, rfl⟩ := h
      have hwo : (UInt32.ofNat k.toNat).toNat = k.toNat := UInt32.toNat_ofNat_of_lt' (by
        rw [UInt32.size]
        omega)
      have hk : (UInt32.ofNat k.toNat).toUInt64 = k := by
        rw [← UInt64.toNat_inj, UInt32.toNat_toUInt64, hwo]
      exact ⟨by rw [toJson, hk], by rw [Valid, hwo]; exact ⟨hlow, hhi⟩⟩
    case h_5 => cases h
    all_goals
      simp only [map_ok, okOr_ok, filter_asStr_eq_some, Function.comp_apply, Option.some.injEq] at h
      obtain ⟨s, ⟨rfl, hs⟩, rfl⟩ := h
      exact ⟨rfl, by simpa [Valid] using hs⟩
  · rintro ⟨hjs, hok⟩
    obtain ⟨rfl, rfl⟩ := Prod.mk.inj hjs
    cases p with
    | authenticationAgeAtMost value =>
      have hfl : (Json.asU64 (.num (.posInt value.toUInt64))).filter
          (fun n => 60 ≤ n ∧ n ≤ 86400) = some value.toNat := by
        rw [Option.filter_eq_some_iff, Json.asU64, UInt32.toNat_toUInt64]
        exact ⟨rfl, decide_eq_true hok⟩
      simp only [parse, hfl, map_ok]
      exact ⟨value.toNat, rfl, by rw [UInt32.ofNat_toNat]⟩
    | _ => simpa [parse, toJson, Valid] using hok

/-! ### Leaves -/

/-- The one member of the object a leaf is written as. -/
def Condition.leafMember : Condition → String × Json
  | .attr source name test => ("attribute", record (attributeFields source name test))
  | .group name => ("group", .str name)
  | .role owner name => ("role", record (roleFields owner name))
  | .grant matcher => ("grant", record matcher.fields)
  | .acrAtLeast value => ("acr_at_least", .str value)
  | .trusted predicate => predicate.toJson
  | .all _ | .any _ | .not _ => ("", .null)

theorem Condition.toJson_of_isLeaf (h : c.IsLeaf) : c.toJson = .obj [c.leafMember] := by
  cases c <;> first | exact h.elim | simp only [toJson]; rfl

/-- Conditions with children. -/
def combinators : List String := ["all", "any", "not"]

theorem Condition.leafMember_not_combinator (h : c.IsLeaf) : c.leafMember.1 ∉ combinators := by
  cases c with
  | all | any | not => exact h.elim
  | trusted predicate =>
    cases predicate <;> simp [leafMember, TrustedPredicate.toJson, combinators]
  | _ => simp [leafMember, combinators]

/-- **What the reader makes of a leaf**: it is valid, and is written under the name it was read
under, with no longer a body. -/
theorem valid_of_parseLeaf (h : parseLeaf path name body = .ok c) :
    c.IsLeaf ∧ c.NodeValid ∧ c.leafMember.1 = name ∧
    c.leafMember.2.byteSize floatSize ≤ body.byteSize floatSize := by
  unfold parseLeaf at h
  split at h
  · obtain ⟨object, rfl, source, hof, name, hnm, htx, test, ⟨hrd, hok⟩, rfl⟩ :=
      parseAttribute_ok.1 h
    exact ⟨trivial, ⟨htx, hok⟩, rfl, size_attribute_le hof hnm hrd⟩
  · simp only [map_ok, boundedString_ok] at h
    obtain ⟨s, ⟨rfl, htx⟩, rfl⟩ := h
    exact ⟨trivial, htx, rfl, le_rfl⟩
  · obtain ⟨object, rfl, name, hnm, htx, hrl, owner, hown, rfl⟩ := parseRole_ok.1 h
    refine ⟨trivial, ⟨htx, hrl, ?_⟩, rfl, size_role_le hnm hown⟩
    rintro o rfl
    exact hown.2
  · obtain ⟨object, rfl, -, -, resource, hres, scope, hsc, detailType, hdet, action,
      hact, client, hcli, rfl⟩ := parseGrant_ok.1 h
    refine ⟨trivial, ⟨?_, hsc.isText, hdet.isText, hact.isText, hcli.isText⟩, rfl,
      size_grant_le hres hsc hdet hact hcli⟩
    simp only [Option.mem_def, Option.map_eq_some_iff]
    rintro r ⟨raw, hraw, rfl⟩
    exact GrantResource.valid_ofText (hres.isText raw hraw)
  · simp only [map_ok, boundedString_ok] at h
    obtain ⟨s, ⟨rfl, htx⟩, rfl⟩ := h
    exact ⟨trivial, htx, rfl, le_rfl⟩
  · simp only [bind_ok, map_ok, okOr_ok] at h
    obtain ⟨_, hpar, p, rfl, rfl⟩ := h
    obtain ⟨hjs, hok⟩ := parse_ok.1 hpar
    refine ⟨trivial, hok, ?_, ?_⟩
    · rw [leafMember, hjs]
    · rw [leafMember, hjs]

/-- **What the encoder writes for a valid leaf is read back**, unless it is an empty grant. -/
theorem parseLeaf_leafMember (hlf : c.IsLeaf) (hok : c.NodeValid) (hnm : c.NodeNamed)
    (path : String) : parseLeaf path c.leafMember.1 c.leafMember.2 = .ok c := by
  cases c with
  | all | any | not => exact hlf.elim
  | attr => exact parseAttribute_record hok.1 hok.2 _
  | group name =>
    simp only [leafMember, parseLeaf, map_ok, boundedString_ok]
    exact ⟨name, ⟨rfl, hok⟩, rfl⟩
  | role => exact parseRole_record hok.1 hok.2.1 hok.2.2 _
  | grant => exact parseGrant_record hok hnm _
  | acrAtLeast value =>
    simp only [leafMember, parseLeaf, map_ok, boundedString_ok]
    exact ⟨value, ⟨rfl, hok⟩, rfl⟩
  | trusted predicate =>
    have hpar : parse predicate.toJson.1 predicate.toJson.2 =
        .ok (some predicate) := parse_ok.2 ⟨rfl, hok⟩
    -- it is written under none of the names that come first in `parseLeaf`
    cases predicate <;> exact bind_ok.2 ⟨_, hpar, rfl⟩

theorem nodeNamed_of_parseLeaf {c' : Condition}
    (h : parseLeaf path c.leafMember.1 c.leafMember.2 = .ok c') : c.NodeNamed := by
  cases c with
  | grant => exact named_of_parseGrant h
  | _ => trivial

end AsteriusIdp.Policy
