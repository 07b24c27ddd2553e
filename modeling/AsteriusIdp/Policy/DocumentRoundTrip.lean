import AsteriusIdp.Policy.DocumentRule

/-!
# Storing a policy document and loading it again

An accepted document is stored as the encoder writes it and read again when it is loaded.

* `DocumentScope.parse_toJson`, `parseScopes_toJson` : the scopes of a document are read back from
  what is written for them.
* `Document.fromJson_toJson_iff` : a document is loaded back unchanged just when none of its grant
  tests is empty and, if it has conditional scopes, what is stored stays within the bound on the
  bytes of a document.
-/

namespace AsteriusIdp.Policy

open Fallible Json Entries Document

variable {floatSize : ℚ → ℕ}

/-! ### Scopes -/

variable {ν : Type} {format : Format ν}

/-- What a scope is written as, before its checks. -/
def DocumentScope.wire (scope : DocumentScope ν) : Wire ν :=
  { mode := scope.mode, id := scope.id, clients := scope.clients.sort,
    actions := scope.actions.sort,
    requiredFacts := FactName.all.filter (· ∈ scope.requiredFacts),
    rules := scope.rules.rules.map Rule.toJson, assuranceRemedy := scope.assuranceRemedy,
    networkZones := scope.networkZones }

theorem readVariant_str {α : Type} {variants : List α} {asStr : α → String} {a : α}
    (h : variants.find? (asStr · = asStr a) = some a) :
    readVariant variants asStr (.str (asStr a)) = some a := h

theorem readStrings_jsonStrings (texts : List String) :
    readStrings (jsonStrings texts) = some texts := by
  simp only [readStrings, jsonStrings, Json.asArray, Option.bind_some, mapM_eq_some]
  exact List.forall₂_map_left_iff.2 (List.forall₂_same.2 fun _ _ => rfl)

theorem readOptionalString_getD (o : Option String) :
    readOptionalString ((o.map .str).getD .null) = some o := by
  cases o <;> simp [readOptionalString]

theorem readFacts_factsJson (facts : Finset FactName) :
    (factsJson facts).asArray.bind (·.mapM (readVariant FactName.all FactName.asStr)) =
      some (FactName.all.filter (· ∈ facts)) := by
  simp only [factsJson, Json.asArray, Option.bind_some, mapM_eq_some]
  refine List.forall₂_map_left_iff.2 (List.forall₂_same.2 fun fact _ => readVariant_str ?_)
  cases fact <;> decide

theorem readZones_zonesJson (zones : Entries String (List ν)) :
    readZones format (zonesJson format zones) = some zones := by
  simp only [readZones, zonesJson, Json.asObject, Option.bind_some, mapM_eq_some]
  refine List.forall₂_map_left_iff.2 (List.forall₂_same.2 fun zone _ => ?_)
  have hstr : readStrings (.arr (zone.2.map (.str <| format.showNet ·))) =
      some (zone.2.map format.showNet) := by
    rw [← readStrings_jsonStrings, jsonStrings, List.map_map]
    rfl
  have hne : (zone.2.map format.showNet).mapM format.parseNet = some zone.2 :=
    mapM_eq_some.2 (List.forall₂_map_left_iff.2
      (List.forall₂_same.2 fun net _ => format.parseNet_showNet net))
  simp only [hstr, Option.bind_some, hne]
  rfl

/-- The members of a written scope. -/
def DocumentScope.fields (format : Format ν) (scope : DocumentScope ν) :
    List (String × Option Json) :=
  [("mode", some (.str scope.mode.asStr)), ("id", some (.str scope.id)),
    ("clients", some (jsonStrings scope.clients.sort)),
    ("actions", some (jsonStrings scope.actions.sort)),
    ("required_facts", some (factsJson scope.requiredFacts)),
    ("rules", some (rulesJson scope.rules.rules)),
    ("assurance_remedy", some ((scope.assuranceRemedy.map .str).getD .null)),
    ("network_zones", some (zonesJson format scope.networkZones))]

theorem DocumentScope.fromValue_toJson (scope : DocumentScope ν) :
    Wire.fromValue format (scope.toJson format) = some scope.wire := by
  have hnod : ((scope.fields format).map Prod.fst).Nodup := by simp [DocumentScope.fields]
  have hlk := forall_lookup_recordMembers hnod
  have hkn : (recordMembers (scope.fields format)).all (·.1 ∈ wireMembers) = true := by
    rw [List.all_eq_true]
    intro m hm
    have hfld := List.mem_map_of_mem (f := Prod.fst) (mem_of_mem_recordMembers hm)
    simpa [DocumentScope.fields, wireMembers] using hfld
  have hmo : readVariant EnforcementMode.all EnforcementMode.asStr (.str scope.mode.asStr) =
      some scope.mode := by
    cases scope.mode <;> decide
  have hrul : (rulesJson scope.rules.rules).asArray =
      some (scope.rules.rules.map Rule.toJson) := rfl
  have hobj : scope.toJson format = .obj (recordMembers (scope.fields format)) := rfl
  simp only [hobj, Wire.fromValue, hkn]
  simp only [DocumentScope.fields, List.Forall] at hlk ⊢
  simp [hlk, Wire.read, hmo, readDefault, readStrings_jsonStrings, readFacts_factsJson,
    readOptionalString_getD, readZones_zonesJson, hrul, Json.asStr, DocumentScope.wire]

variable [DecidableEq ν]

/-- The document a scope's rules are read from. -/
def headJson (rules : Json) : Json :=
  record [("version", some (.num (.posInt 1))), ("rules", some rules)]

variable {es vs : List Json} {rules : List Rule} {object : Object}

theorem lookup_headJson (es : List Json) :
    ([("version", some (.num (.posInt 1))), ("rules", some (.arr es))] :
      List (String × Option Json)).Forall fun field => lookup (recordMembers
        [("version", some (.num (.posInt 1))), ("rules", some (.arr es))]) field.1 = field.2 :=
  forall_lookup_recordMembers (by simp)

theorem parseHead_headJson :
    parseHead floatSize (headJson (.arr es)) = .ok (object, rules) ↔
      (headJson (.arr es)).byteSize floatSize ≤ maxDocumentBytes ∧
        object = recordMembers [("version", some (.num (.posInt 1))), ("rules", some (.arr es))] ∧
        es.length ≤ maxRules ∧ parseRules 0 es [] = .ok rules := by
  obtain ⟨hve, hes⟩ := lookup_headJson es
  rw [parseHead_ok]
  grind [headJson, record, List.Forall]

variable {v : Json} {scope : DocumentScope ν} {seen scopes : List (DocumentScope ν)}

/-- What the checks of a scope say, with the members they are about. -/
theorem DocumentScope.parse_ok :
    DocumentScope.parse format v = .ok scope ↔ ∃ wire, Wire.fromValue format v = some wire ∧
    wire.bounded = true ∧ (∀ action ∈ wire.actions, action ∈ enforcementActions) ∧
    wire.zonesBounded = true ∧
    (headJson (.arr wire.rules)).byteSize format.floatSize ≤ maxDocumentBytes ∧
    wire.rules.length ≤ maxRules ∧ ∃ rules, parseRules 0 wire.rules [] = .ok rules ∧
    (∀ rule ∈ rules, zonesDefined wire.networkZones rule = true) ∧
      { mode := wire.mode, id := wire.id, clients := wire.clients.toFinset,
        actions := wire.actions.toFinset, requiredFacts := wire.requiredFacts.toFinset,
        rules := ⟨rules⟩, assuranceRemedy := wire.assuranceRemedy,
        networkZones := wire.networkZones } = scope := by
  simp [DocumentScope.parse, ← headJson.eq_1, parseHead_headJson, and_assoc]

/-- Sorting a list without repetitions keeps its bounds. -/
theorem boundedList_sort {max : ℕ} {values : List String} (h : boundedList max values = true) :
    boundedList max values.toFinset.sort = true := by
  simp only [boundedList, Bool.and_eq_true, decide_eq_true_eq, List.all_eq_true] at h ⊢
  obtain ⟨⟨⟨hne, hlen⟩, htxt⟩, _⟩ := h
  refine ⟨⟨⟨?_, ?_⟩, ?_⟩, Finset.sort_nodup _ _⟩
  · intro hemp
    obtain ⟨s, hs⟩ := List.exists_mem_of_ne_nil values hne
    have hmem : s ∈ values.toFinset.sort := (Finset.mem_sort _).2 (List.mem_toFinset.2 hs)
    rw [hemp] at hmem
    exact List.not_mem_nil hmem
  · rw [Finset.length_sort]
    exact (List.toFinset_card_le values).trans hlen
  · intro s hs
    exact htxt s (List.mem_toFinset.1 ((Finset.mem_sort _).1 hs))

theorem FactName.toFinset_filter (facts : Finset FactName) :
    (FactName.all.filter (· ∈ facts)).toFinset = facts := by
  ext fact
  simp only [List.mem_toFinset, List.mem_filter, decide_eq_true_eq, and_iff_right_iff_imp]
  intro
  cases fact <;> decide

/-- A record of rules that are no longer is no longer. -/
theorem size_headJson_le (h : parseRules 0 es [] = .ok rules) :
    (headJson (rulesJson rules)).byteSize floatSize ≤ (headJson (.arr es)).byteSize floatSize := by
  obtain ⟨hve, hes⟩ := lookup_headJson es
  refine byteSize_record_le (by simp) (.intro ?_ ?_)
  · rintro _ ⟨⟩
    exact ⟨_, hve, le_rfl⟩
  · rintro _ ⟨⟩
    exact ⟨_, hes, size_rulesJson_le h⟩

/-- **What the encoder writes for an accepted scope is read back**, if none of its grant tests is
empty. -/
theorem DocumentScope.parse_toJson (h : DocumentScope.parse format v = .ok scope)
    (hnm : ∀ rule ∈ scope.rules.rules, rule.Named) :
    DocumentScope.parse format (scope.toJson format) = .ok scope := by
  obtain ⟨wire, -, hbdd, hact, hzon, hsz, hlen, rules, hrl, hdef, rfl⟩ :=
    DocumentScope.parse_ok.1 h
  have hrul := rulesValid_of_parseRules hrl hlen
  refine DocumentScope.parse_ok.2 ⟨_, DocumentScope.fromValue_toJson _, ?_, ?_, hzon,
    (size_headJson_le hrl).trans hsz, ?_, rules, hrul.parseRules_toJson hnm,
    hdef, ?_⟩
  · simp only [Wire.bounded, Bool.and_eq_true, decide_eq_true_eq] at hbdd ⊢
    obtain ⟨⟨⟨⟨⟨hid, hcl⟩, hac⟩, -⟩, -⟩, hrem⟩ := hbdd
    have hall : FactName.all.Nodup := by decide
    have hsh : FactName.all.length ≤ 32 := by decide
    refine ⟨⟨⟨⟨⟨hid, boundedList_sort hcl⟩, boundedList_sort hac⟩,
      (List.length_filter_le _ _).trans hsh⟩, ?_⟩, hrem⟩
    simp only [DocumentScope.wire]
    exact hall.filter _
  · intro action hacti
    exact hact action (List.mem_toFinset.1 ((Finset.mem_sort _).1 hacti))
  · simpa [DocumentScope.wire] using hrul.length_le
  · simp only [DocumentScope.wire, FactName.toFinset_filter, Finset.sort_toFinset]

theorem DocumentScope.named_of_parse {scope' : DocumentScope ν}
    (h : DocumentScope.parse format (scope.toJson format) = .ok scope') :
    ∀ rule ∈ scope.rules.rules, rule.Named := by
  obtain ⟨_, hwi, -, -, -, -, -, _, hrul, -⟩ := DocumentScope.parse_ok.1 h
  cases (DocumentScope.fromValue_toJson scope).symm.trans hwi
  exact named_of_parseRules hrul

theorem parseScopes_toJson (h : parseScopes format vs seen = .ok scopes)
    (hnm : ∀ scope ∈ scopes, ∀ rule ∈ scope.rules.rules, rule.Named) :
    parseScopes format (scopes.map (·.toJson format)) seen = .ok scopes := by
  induction vs generalizing seen scopes with
  | nil =>
    cases h
    rfl
  | cons v vs ih =>
    simp only [parseScopes, bind_ok, refuseIf_ok, pure_ok, exists_const] at h
    obtain ⟨scope, hsc, hcla, rest, hrs, rfl⟩ := h
    obtain ⟨hnm₁, hnm⟩ := List.forall_mem_cons.1 hnm
    simp only [List.map_cons, parseScopes, bind_ok, refuseIf_ok, exists_const]
    exact ⟨scope, DocumentScope.parse_toJson hsc hnm₁, hcla, rest, ih hrs hnm, rfl⟩

theorem named_of_parseScopes {scopes' : List (DocumentScope ν)}
    (h : parseScopes format (scopes.map (·.toJson format)) seen = .ok scopes') :
    ∀ scope ∈ scopes, ∀ rule ∈ scope.rules.rules, rule.Named := by
  induction scopes generalizing seen scopes' with
  | nil => simp
  | cons scope scopes ih =>
    simp only [List.map_cons, parseScopes, bind_ok] at h
    obtain ⟨_, hsc, -, -, _, hrs, -⟩ := h
    exact List.forall_mem_cons.2 ⟨DocumentScope.named_of_parse hsc, ih hrs⟩

/-! ### Documents -/

/-- Every rule of the document, those of its scopes included. -/
def Document.allRules (document : Document ν) : List Rule :=
  document.rules ++ document.conditionalScopes.flatMap (·.rules.rules)

/-- None of the grant tests of the document is empty. -/
def Document.Named (document : Document ν) : Prop := ∀ rule ∈ document.allRules, rule.Named

omit [DecidableEq ν] in
theorem Document.named_iff {doc : Document ν} :
    doc.Named ↔ (∀ rule ∈ doc.rules, rule.Named) ∧
    ∀ scope ∈ doc.conditionalScopes, ∀ rule ∈ scope.rules.rules, rule.Named := by
  simp only [Named, allRules, List.mem_append, List.mem_flatMap]
  constructor
  · intro h
    exact ⟨fun rule hrl => h rule (.inl hrl),
      fun scope hsc rule hrl => h rule (.inr ⟨scope, hsc, hrl⟩)⟩
  · rintro ⟨hrul, hscs⟩ rule (hrl | ⟨scope, hsc, hrl⟩)
    · exact hrul rule hrl
    · exact hscs scope hsc rule hrl

/-- The members of a document. -/
def Document.fields (format : Format ν) (document : Document ν) : List (String × Option Json) :=
  [("version", some (.num (.posInt 1))), ("rules", some (rulesJson document.rules)),
    ("conditional_scopes",
      if document.conditionalScopes = [] then none
      else some (.arr (document.conditionalScopes.map (·.toJson format))))]

theorem Document.fromJson_ok {doc : Document ν} :
    fromJson format v = .ok doc ↔
      ∃ object, parseHead format.floatSize v = .ok (object, doc.rules) ∧
      (∀ rule ∈ doc.rules, rule.when.any Condition.containsTrusted = false) ∧
        parseConditionalScopes format object = .ok doc.conditionalScopes ∧
        doc.rules.length + (doc.conditionalScopes.map (·.rules.rules.length)).sum ≤ maxRules := by
  obtain ⟨⟨_⟩, _⟩ := doc
  simp [fromJson]

theorem length_parseScopes (h : parseScopes format vs seen = .ok scopes) :
    scopes.length = vs.length := by
  induction vs generalizing seen scopes with
  | nil =>
    cases h
    rfl
  | cons v vs ih =>
    simp only [parseScopes, bind_ok, pure_ok] at h
    obtain ⟨_, -, -, -, _, hrs, rfl⟩ := h
    rw [List.length_cons, List.length_cons, ih hrs]

/-- What the scopes of a document were read from. -/
theorem scopes_of_parse (h : parseConditionalScopes format object = .ok scopes) :
    scopes = [] ∨ ∃ vs, parseScopes format vs [] = .ok scopes ∧ scopes.length ≤ 64 := by
  unfold parseConditionalScopes at h
  split at h
  · exact .inl (Except.ok.inj h).symm
  · simp only [bind_ok, okOr_ok, Option.filter_eq_some_iff, decide_eq_true_eq] at h
    obtain ⟨vs, ⟨-, hlen⟩, hscs⟩ := h
    exact .inr ⟨vs, hscs, length_parseScopes hscs ▸ hlen⟩

section Stored

variable {doc : Document ν}

omit [DecidableEq ν] in
theorem Document.lookup_fields : (doc.fields format).Forall fun field =>
    lookup (recordMembers (doc.fields format)) field.1 = field.2 :=
  forall_lookup_recordMembers (by simp [fields])

/-- What the reader needs to load the stored document. -/
theorem Document.fromJson_toJson {v : Json} (h : fromJson format v = .ok doc) (hnm : doc.Named)
    (hsz : (doc.toJson format).byteSize format.floatSize ≤ maxDocumentBytes) :
    fromJson format (doc.toJson format) = .ok doc := by
  obtain ⟨object, hhd, htru, hscs, hcnt⟩ := fromJson_ok.1 h
  obtain ⟨-, rfl, -, es, -, hlen, hrl⟩ := parseHead_ok.1 hhd
  obtain ⟨hna, hnam⟩ := named_iff.1 hnm
  have hrul := rulesValid_of_parseRules hrl hlen
  obtain ⟨hve, hwr, hwrit⟩ := doc.lookup_fields
  refine fromJson_ok.2 ⟨recordMembers (doc.fields format), ?_, htru, ?_, hcnt⟩
  · refine parseHead_ok.2 ⟨hsz, rfl, hve, doc.rules.map Rule.toJson, hwr, ?_,
      hrul.parseRules_toJson hna⟩
    simpa using hrul.length_le
  · rw [parseConditionalScopes, hwrit]
    split_ifs with hemp
    · rw [hemp]
    · rcases scopes_of_parse hscs with hnil | ⟨vs, hpar, hsh⟩
      · exact absurd hnil hemp
      · simp only [bind_ok, okOr_ok, Option.filter_eq_some_iff, asArray_eq_some,
          decide_eq_true_eq]
        exact ⟨_, ⟨rfl, by simpa using hsh⟩, parseScopes_toJson hpar hnam⟩

/-- A stored document that can be loaded fits the bound and has no empty grant test. -/
theorem Document.named_of_fromJson {doc' : Document ν}
    (h : fromJson format (doc.toJson format) = .ok doc') :
    doc.Named ∧ (doc.toJson format).byteSize format.floatSize ≤ maxDocumentBytes := by
  obtain ⟨object, hhd, -, hscs, -⟩ := fromJson_ok.1 h
  obtain ⟨hsz, hobj, -, _, hes, -, hrul⟩ := parseHead_ok.1 hhd
  obtain rfl : recordMembers (doc.fields format) = object := Json.obj.inj hobj
  obtain ⟨-, hwr, hwrit⟩ := doc.lookup_fields
  refine ⟨named_iff.2 ⟨?_, ?_⟩, hsz⟩
  · cases hwr.symm.trans hes
    exact named_of_parseRules hrul
  · by_cases hemp : doc.conditionalScopes = []
    · simp [hemp]
    · rw [parseConditionalScopes, hwrit, if_neg hemp] at hscs
      simp only [bind_ok, okOr_ok, Option.filter_eq_some_iff, asArray_eq_some,
        Json.arr.injEq] at hscs
      obtain ⟨_, ⟨rfl, -⟩, hpar⟩ := hscs
      exact named_of_parseScopes hpar

/-- Without scopes, nothing is written that was not in the document. -/
theorem Document.size_toJson_le {v : Json} (h : fromJson format v = .ok doc)
    (hscs : doc.conditionalScopes = []) :
    (doc.toJson format).byteSize format.floatSize ≤ maxDocumentBytes := by
  obtain ⟨_, hhd, -⟩ := fromJson_ok.1 h
  obtain ⟨hsz, rfl, hve, _, hes, -, hrul⟩ := parseHead_ok.1 hhd
  refine le_trans ?_ hsz
  refine byteSize_record_le (by simp) ⟨?_, ?_, ?_⟩
  · rintro _ ⟨⟩
    exact ⟨_, hve, le_rfl⟩
  · rintro _ ⟨⟩
    exact ⟨_, hes, size_rulesJson_le hrul⟩
  · simp [hscs]

/-- **Storing and loading.**  An accepted document is loaded back unchanged just when none of its
grant tests is empty and, if it has conditional scopes, what is stored stays within the bound on
the bytes of a document. -/
theorem Document.fromJson_toJson_iff {v : Json} (h : Document.fromJson format v = .ok doc) :
    Document.fromJson format (doc.toJson format) = .ok doc ↔
      doc.Named ∧ (doc.conditionalScopes ≠ [] →
        (doc.toJson format).byteSize format.floatSize ≤ maxDocumentBytes) := by
  constructor
  · intro hlo
    obtain ⟨hnm, hsz⟩ := named_of_fromJson hlo
    exact ⟨hnm, fun _ => hsz⟩
  · rintro ⟨hnm, hsz⟩
    refine fromJson_toJson h hnm ?_
    by_cases hscs : doc.conditionalScopes = []
    · exact size_toJson_le h hscs
    · exact hsz hscs

end Stored

/-- Networks as they are spelled. -/
def plainFormat : Format String :=
  { floatSize := fun _ => 0, parseNet := some, showNet := id, parseNet_showNet := fun _ => rfl }

/-- A document with one rule that denies when a grant carries what `grant` names. -/
def denyGrant (grant : Object) : Json :=
  .obj [("rules", .arr [.obj [("effect", .str "deny"), ("id", .str "no-grant"),
    ("when", .obj [("grant", .obj grant)])]]), ("version", .num (.posInt 1))]

theorem fromJson_toJson_iff_scope : ∃ doc,
    Document.fromJson plainFormat (denyGrant [("scope", .str "read")]) = .ok doc ∧
    (Document.fromJson plainFormat (doc.toJson plainFormat) = .ok doc ↔
      doc.Named ∧ (doc.conditionalScopes ≠ [] →
        (doc.toJson plainFormat).byteSize plainFormat.floatSize ≤ maxDocumentBytes)) := by
  have hok : (fromJson plainFormat (denyGrant [("scope", .str "read")])).isOk = true := by
    decide +kernel
  generalize hpar : fromJson plainFormat _ = result at hok
  cases result with
  | error => exact absurd hok Bool.false_ne_true
  | ok doc => exact ⟨doc, rfl, fromJson_toJson_iff hpar⟩

/-- A grant test whose only member is null is accepted, and is written as an empty one. -/
theorem fromJson_toJson_nullScope : ∃ doc,
    Document.fromJson plainFormat (denyGrant [("scope", .null)]) = .ok doc ∧
    Document.fromJson plainFormat (doc.toJson plainFormat) =
      .error (.condition "rules[0].when.grant" "grant names nothing to match") := by
  have href : (match fromJson plainFormat (denyGrant [("scope", .null)]) with
      | .error _ => none
      | .ok doc => match fromJson plainFormat (doc.toJson plainFormat) with
        | .error e => some e
        | .ok _ => none) =
      some (.condition "rules[0].when.grant" "grant names nothing to match") := by
    decide +kernel
  split at href
  · cases href
  · next doc hpar =>
    split at href
    · next e hlo => exact ⟨doc, hpar, by rw [hlo, Option.some.inj href]⟩
    · cases href

end AsteriusIdp.Policy
