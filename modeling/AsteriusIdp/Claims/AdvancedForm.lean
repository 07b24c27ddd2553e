import AsteriusIdp.Claims.Advanced

/-!
# The canonical form of advanced claims

What an accepted request for advanced claims meets (`AscRequest.Accepted`), and that its canonical
form reads back.  Each part of the form has its own pair of lemmas, one that says what parsing
guarantees and one that says that what is guaranteed parses to itself:

* `AscRequest.accepted_of_parse` : every request that was parsed is accepted;
* `AscRequest.Accepted.parse_of_members` : a document with the canonical `_asc` object and the
  canonical aliases in its sections is parsed to the request.
-/

namespace AsteriusIdp

open Fallible Json Entries

/-! ### Transformed claims -/

/-- The functions from a position on are accepted there. -/
def acceptedCalls : ℕ → List Call → Bool
  | _, [] => true
  | index, call :: calls => call.acceptedAt index && acceptedCalls (index + 1) calls

variable {index : ℕ}

theorem Call.acceptedAt_of_parse {function : Json} {call : Call}
    (h : Call.parse index function = some call) : call.acceptedAt index = true := by
  unfold parse at h
  split at h
  · simp only [bind_eq_some, Option.ite_none_right_eq_some,
      Option.some.injEq] at h
    obtain ⟨_, -, hacc, rfl⟩ := h
    exact hacc
  · cases h

theorem Call.parse_toJson {call : Call} (h : call.acceptedAt index = true) :
    Call.parse index call.toJson = some call := by
  simp [parse, toJson, h]

variable {calls : List Call}

theorem acceptedCalls_of_parseCalls {functions : List Json}
    (h : parseCalls index functions = some calls) :
    acceptedCalls index calls = true ∧ calls.length = functions.length := by
  induction functions generalizing index calls with
  | nil =>
    cases h
    exact ⟨rfl, rfl⟩
  | cons function functions ih =>
    simp only [parseCalls, bind_eq_some, Option.some.injEq] at h
    obtain ⟨_, hca, _, hcal, rfl⟩ := h
    obtain ⟨hacc, hlen⟩ := ih hcal
    simp [acceptedCalls, Call.acceptedAt_of_parse hca, hacc, hlen]

theorem parseCalls_toJson (h : acceptedCalls index calls = true) :
    parseCalls index (calls.map Call.toJson) = some calls := by
  induction calls generalizing index with
  | nil => rfl
  | cons call calls ih =>
    simp only [acceptedCalls, Bool.and_eq_true] at h
    simp [parseCalls, Call.parse_toJson h.1, ih h.2]

/-- What an accepted definition meets. -/
structure Definition.Accepted (definition : Definition) : Prop where
  base : ReleasableClaim.isComputed definition.base.asStr = false
  nonempty : definition.functions ≠ []
  few : definition.functions.length ≤ ascMaxDepth
  calls : acceptedCalls 0 definition.functions = true

variable {m : String × Json}

theorem Definition.accepted_of_parse {e : String × Definition}
    (h : Definition.parse m = some e) : e.1 = m.1 ∧ isAlias e.1 = true ∧ e.2.Accepted := by
  unfold parse at h
  split_ifs at h with hali
  simp only [bind_eq_some] at h
  obtain ⟨_, -, h⟩ := h
  split_ifs at h
  simp only [bind_eq_some, Option.bind_eq_some_iff] at h
  obtain ⟨_, ⟨_, -, hbs⟩, _, -, h⟩ := h
  split_ifs at h with hsz
  simp only [bind_eq_some, Option.some.injEq] at h
  obtain ⟨_, hcal, rfl⟩ := h
  obtain ⟨hacc, hlen⟩ := acceptedCalls_of_parseCalls hcal
  obtain ⟨rfl, hcmp⟩ := ReleasableClaim.parse_eq_some.1 hbs
  simp only [not_or, not_lt] at hsz
  refine ⟨rfl, hali, hcmp, ?_, hlen ▸ hsz.2, hacc⟩
  rintro rfl
  exact hsz.1 (List.length_eq_zero_iff.1 hlen.symm)

variable {name : String}

theorem Definition.Accepted.parse_toJson {definition : Definition}
    (h : definition.Accepted) (hnm : isAlias name = true) :
    Definition.parse (name, definition.toJson) = some (name, definition) := by
  have hbs : ReleasableClaim.parse definition.base.asStr = some definition.base :=
    ReleasableClaim.parse_eq_some.2 ⟨rfl, h.base⟩
  simp [parse, toJson, hnm, asObject, asStr, asArray, lookup_cons, hbs, h.nonempty,
    not_lt.2 h.few, parseCalls_toJson h.calls]

variable {raw : Option Json} {definitions : Entries String Definition}

theorem parseDefinitions_spec (h : parseDefinitions raw = some definitions) :
    Sorted definitions ∧ definitions.length ≤ ascMaxCount ∧ (raw.isSome → definitions ≠ []) ∧
    ∀ e ∈ definitions, Definition.isAlias e.1 = true ∧ e.2.Accepted := by
  cases raw with
  | none =>
    cases h
    simp [Sorted.nil]
  | some =>
    simp only [parseDefinitions, bind_eq_some] at h
    obtain ⟨_, -, h⟩ := h
    split_ifs at h with hsz
    obtain ⟨es, hes, rfl⟩ := Option.map_eq_some_iff.1 h
    have hall := mapM_eq_some.1 hes
    have hlen := hall.length_eq
    simp only [not_or, not_lt] at hsz
    refine ⟨Sorted.collect es, (length_collect_le es).trans (hlen ▸ hsz.2),
      fun _ => collect_ne_nil ?_, fun e he => ?_⟩
    · rintro rfl
      exact hsz.1 (List.length_eq_zero_iff.1 hlen)
    · obtain ⟨_, -, hm⟩ := exists_of_mem_forall₂ hall (mem_of_mem_collect he)
      exact (Definition.accepted_of_parse hm).2

theorem parseDefinitions_toJson (hso : Sorted definitions) (hne : definitions ≠ [])
    (hfew : definitions.length ≤ ascMaxCount)
    (hacc : ∀ e ∈ definitions, Definition.isAlias e.1 = true ∧ e.2.Accepted) :
    parseDefinitions (some (.obj (collect
      (mapEntries id (fun _ => Definition.toJson) definitions)))) = some definitions := by
  have hco : collect (mapEntries id (fun _ => Definition.toJson) definitions) =
      mapEntries id (fun _ => Definition.toJson) definitions :=
    (hso.mapEntries strictMono_id).collect_eq
  have hpar : (mapEntries id (fun _ => Definition.toJson) definitions).mapM
      Definition.parse = some definitions := by
    rw [mapM_eq_some, mapEntries, List.forall₂_map_left_iff, List.forall₂_same]
    exact fun e he => (hacc e he).2.parse_toJson (hacc e he).1
  have hlen : (mapEntries id (fun _ => Definition.toJson) definitions).length =
      definitions.length := List.length_map _
  have hne' : mapEntries id (fun _ => Definition.toJson) definitions ≠ [] := by
    rwa [ne_eq, ← List.length_eq_zero_iff, hlen, List.length_eq_zero_iff]
  simp [parseDefinitions, hco, asObject, hne', hlen, not_lt.2 hfew, hpar, hso.collect_eq]

/-! ### Rules -/

theorem directPointer_eq_some {raw : String} :
    directPointer raw = some name ↔ raw = Text.cons '/' name ∧ isPointerName name = true := by
  simp only [directPointer, bind_eq_some, Text.strip_eq_some, Option.ite_none_right_eq_some]
  grind

/-- What an accepted rule meets. -/
structure Rule.Accepted (rule : Rule) : Prop where
  loc : isPointerName rule.loc = true
  expected : ∀ values, rule.expected = some values →
    values ≠ [] ∧ values.length ≤ ascMaxCount ∧ values.all scalar = true
  omitted : ∀ names, rule.omitted = some names →
    names ≠ [] ∧ names.length ≤ ascMaxCount ∧ ∀ name ∈ names, isPointerName name = true

variable {fields ms root : Object}

theorem Rule.parseExpected_spec {method : String}
    {expected : Option (List Json)} (h : parseExpected method fields = some expected) :
    ∀ values, expected = some values →
      values ≠ [] ∧ values.length ≤ ascMaxCount ∧ values.all scalar = true := by
  unfold parseExpected at h
  split_ifs at h
  · cases h
    simp
  · simp only [bind_eq_some] at h
    obtain ⟨_, -, h⟩ := h
    split_ifs at h with hsz
    cases h
    simp only [not_or, not_lt, not_not] at hsz
    rintro _ ⟨⟩
    exact hsz

theorem Rule.parseOmitted_spec {loc : String} {omitted : Option (List String)}
    (hloc : isPointerName loc = true) (h : parseOmitted loc fields = some omitted) :
    ∀ names, omitted = some names →
      names ≠ [] ∧ names.length ≤ ascMaxCount ∧ ∀ name ∈ names, isPointerName name = true := by
  unfold parseOmitted at h
  split at h
  · cases h
  · split_ifs at h
    · cases h
      simp
    · split at h
      · cases h
        rintro _ ⟨⟩
        simp [hloc, ascMaxCount]
      · split_ifs at h with hsz
        obtain ⟨_, hnms, rfl⟩ := Option.map_eq_some_iff.1 h
        have hall := mapM_eq_some.1 hnms
        simp only [not_or, not_lt] at hsz
        rintro _ ⟨⟩
        refine ⟨?_, hall.length_eq ▸ hsz.2, fun name hnm => ?_⟩
        · rintro rfl
          exact hsz.1 (List.length_eq_zero_iff.1 hall.length_eq)
        · obtain ⟨_, -, hp⟩ := exists_of_mem_forall₂ hall hnm
          obtain ⟨_, -, hraw⟩ := Option.bind_eq_some_iff.1 hp
          exact (directPointer_eq_some.1 hraw).2
      · cases h

variable {rule : Rule}

theorem Rule.accepted_of_parse {raw : Json} (h : Rule.parse raw = some rule) : rule.Accepted := by
  simp only [parse, bind_eq_some] at h
  obtain ⟨_, -, h⟩ := h
  split_ifs at h
  simp only [bind_eq_some, Option.bind_eq_some_iff, Option.some.injEq] at h
  obtain ⟨_, ⟨_, -, hloc⟩, _, -, _, hexpc, _, hom, rfl⟩ := h
  have hptr := (directPointer_eq_some.1 hloc).2
  exact ⟨hptr, parseExpected_spec hexpc, parseOmitted_spec hptr hom⟩

/-- What the canonical form of a rule holds, member by member. -/
theorem Rule.lookup_fieldsJson (rule : Rule) (name : String) :
    lookup rule.fieldsJson name =
      if name = "loc" then some (.str (Text.cons '/' rule.loc))
      else if name = "method" then some (.str (if rule.expected.isSome then "simple" else "exists"))
      else if name = "values" then rule.expected.map .arr
      else if name = "else" then some (.str (if rule.omitted.isSome then "omit" else "abort"))
      else if name = "what" then
        rule.omitted.map fun names => .arr (names.map fun name => .str (Text.cons '/' name))
      else none := by
  obtain ⟨_, expected, omitted⟩ := rule
  by_cases hnm : name ∈ members
  · simp only [members, List.mem_cons, List.not_mem_nil, or_false] at hnm
    rcases hnm with rfl | rfl | rfl | rfl | rfl | rfl <;> cases expected <;> cases omitted <;>
      simp [fieldsJson, lookup_insert]
  · simp only [members, List.mem_cons, List.not_mem_nil, not_or] at hnm
    cases expected <;> cases omitted <;> simp [fieldsJson, lookup_insert, hnm]

theorem Rule.mem_members_of_mem_fieldsJson (h : m ∈ rule.fieldsJson) : m.1 ∈ Rule.members := by
  have hso := isSome_lookup_iff.2 ⟨m.2, h⟩
  rw [lookup_fieldsJson] at hso
  by_contra hnot
  simp only [Rule.members, List.mem_cons, List.not_mem_nil, not_or] at hnot
  simp [hnot] at hso

theorem Rule.parseExpected_fieldsJson (h : rule.Accepted) :
    parseExpected (if rule.expected.isSome then "simple" else "exists") rule.fieldsJson =
      some rule.expected := by
  cases hexpc : rule.expected with
  | none => simp [parseExpected, contains, lookup_fieldsJson, hexpc]
  | some values =>
    obtain ⟨hne, hfew, hsc⟩ := h.expected values hexpc
    simp only [parseExpected, givenValues, contains, lookup_fieldsJson, hexpc]
    simpa [asArray, hne, not_lt.2 hfew] using hsc

theorem Rule.parseOmitted_fieldsJson (h : rule.Accepted) :
    parseOmitted rule.loc rule.fieldsJson = some rule.omitted := by
  cases hom : rule.omitted with
  | none => simp [parseOmitted, contains, lookup_fieldsJson, hom, asStr]
  | some names =>
    obtain ⟨hne, hfew, hptr⟩ := h.omitted names hom
    have hpar : (names.map fun name => Json.str (Text.cons '/' name)).mapM
        (fun (path : Json) => path.asStr.bind directPointer) = some names := by
      rw [mapM_eq_some, List.forall₂_map_left_iff, List.forall₂_same]
      exact fun name hnm => directPointer_eq_some.2 ⟨rfl, hptr name hnm⟩
    have hel : (lookup rule.fieldsJson "else").bind asStr = some "omit" := by
      simp [lookup_fieldsJson, hom]
    have hwh : lookup rule.fieldsJson "what" =
        some (.arr (names.map fun name => .str (Text.cons '/' name))) := by
      simp [lookup_fieldsJson, hom]
    simp [parseOmitted, hel, hwh, hne, not_lt.2 hfew, hpar]

/-- A rule reads back as it was accepted. -/
theorem Rule.Accepted.parse_toJson (h : rule.Accepted) : Rule.parse rule.toJson = some rule := by
  have hptr : directPointer (Text.cons '/' rule.loc) = some rule.loc :=
    directPointer_eq_some.2 ⟨rfl, h.loc⟩
  have hms : ¬∃ m ∈ rule.fieldsJson, m.1 ∉ members :=
    fun ⟨m, hm, hnot⟩ => hnot (mem_members_of_mem_fieldsJson hm)
  have hlo := rule.lookup_fieldsJson "loc"
  have hmt := rule.lookup_fieldsJson "method"
  simp [parse, toJson, asObject, hms, hlo, hmt, asStr, hptr, parseMethod,
    parseExpected_fieldsJson h, parseOmitted_fieldsJson h]

/-- What accepted rules of a section meet. -/
structure RulesAccepted (rules : List Rule) : Prop where
  few : rules.length ≤ ascMaxRules
  each : ∀ rule ∈ rules, rule.Accepted

variable {rules : List Rule}

theorem parseRules_spec (h : parseRules raw = some rules) :
    RulesAccepted rules ∧ (raw.isSome → rules ≠ []) := by
  unfold parseRules at h
  split at h
  · cases h
    exact ⟨⟨by simp, by simp⟩, by simp⟩
  · split_ifs at h with hsz
    have hall := mapM_eq_some.1 h
    simp only [not_or, not_lt] at hsz
    refine ⟨⟨hall.length_eq ▸ hsz.2, fun rule hrl => ?_⟩, fun _ => ?_⟩
    · obtain ⟨_, -, hraw⟩ := exists_of_mem_forall₂ hall hrl
      exact Rule.accepted_of_parse hraw
    · rintro rfl
      exact hsz.1 (List.length_eq_zero_iff.1 hall.length_eq)
  · cases h

theorem RulesAccepted.parseRules_toJson (h : RulesAccepted rules)
    (hne : rules ≠ []) : parseRules (some (.arr (rules.map Rule.toJson))) = some rules := by
  have hpar : (rules.map Rule.toJson).mapM Rule.parse = some rules := by
    rw [mapM_eq_some, List.forall₂_map_left_iff, List.forall₂_same]
    exact fun rule hrl => (h.each rule hrl).parse_toJson
  simp [parseRules, hne, not_lt.2 h.few, hpar]

/-! ### Aliases -/

theorem mem_aliasMembers : m ∈ aliasMembers ms ↔ (Text.cons ':' m.1, m.2) ∈ ms := by
  obtain ⟨name, _⟩ := m
  simp only [aliasMembers, List.mem_filterMap, Option.map_eq_some_iff, Text.strip_eq_some,
    Prod.mk.injEq]
  constructor
  · rintro ⟨⟨_, _⟩, hmem, _, hnm, rfl, rfl⟩
    exact hnm ▸ hmem
  · intro hmem
    exact ⟨_, hmem, name, rfl, rfl, rfl⟩

theorem sorted_aliasMembers (h : Sorted ms) : Sorted (aliasMembers ms) := by
  refine List.Pairwise.filterMap _ ?_ h
  rintro ⟨_, _⟩ ⟨_, _⟩ hlt ⟨_, _⟩ hsh ⟨_, _⟩ hsh'
  simp only [Option.map_eq_some_iff, Text.strip_eq_some] at hsh hsh'
  obtain ⟨_, hnm, rfl, -⟩ := hsh
  obtain ⟨_, hnm', rfl, -⟩ := hsh'
  rw [hnm, hnm'] at hlt
  exact Text.cons_lt_cons.1 hlt

theorem lookup_aliasMembers (h : Sorted ms) (name : String) :
    lookup (aliasMembers ms) name = lookup ms (Text.cons ':' name) := by
  ext entry
  rw [(sorted_aliasMembers h).lookup_iff_mem, h.lookup_iff_mem, mem_aliasMembers]

/-- What accepted aliases of a section meet. -/
structure AliasesAccepted (definitions : Entries String Definition)
    (aliases : Entries String ClaimRequest) : Prop where
  sorted : Entries.Sorted aliases
  few : aliases.length ≤ ascMaxCount
  plain : ∀ e ∈ aliases, Text.startsWith ':' e.1 = false
  defined : ∀ e ∈ aliases, Entries.contains definitions e.1 = true
  values : ∀ e ∈ aliases, e.2.values = []

variable {req : ClaimRequest}

theorem values_of_isAliasEntry {entry : Json} (hali : isAliasEntry entry = true)
    (h : parseEntry entry = .ok req) : req.values = [] := by
  rw [List.eq_nil_iff_forall_not_mem]
  intro _ hv
  have hks : ∀ name w, entry.member name = some w → name = "essential" := by
    intro _ _ hw
    cases entry with
    | obj =>
      simp only [isAliasEntry, Bool.and_eq_true, List.all_eq_true, decide_eq_true_eq] at hali
      exact hali.1 _ (mem_of_lookup hw)
    | _ => cases hw
  rcases mem_values_of_parseEntry h hv with hval | ⟨_, hit, -⟩
  · exact absurd (hks _ _ hval) (by decide)
  · exact absurd (hks _ _ hit) (by decide)

/-- An alias keeps its hint. -/
theorem isAliasEntry_toJson (h : req.values = []) : isAliasEntry req.toJson = true := by
  obtain ⟨essential, values⟩ := req
  obtain rfl : values = [] := h
  cases essential <;> rfl

variable {aliases : Entries String ClaimRequest}

theorem addAlias_ok {aliases' : Entries String ClaimRequest} :
    addAlias definitions aliases m = .ok aliases' ↔
      Text.startsWith ':' m.1 = false ∧ contains definitions m.1 = true ∧
      aliases.length < ascMaxCount ∧ isAliasEntry m.2 = true ∧ ∃ req, parseEntry m.2 = .ok req ∧
      aliases' = insert aliases m.1 req := by
  simp [addAlias, eq_comm (b := aliases'), and_assoc]

/-- How one member of a section becomes an alias. -/
structure AliasOf (definitions : Entries String Definition) (m : String × Json)
    (e : String × ClaimRequest) : Prop where
  name : e.1 = m.1
  plain : Text.startsWith ':' m.1 = false
  defined : Entries.contains definitions m.1 = true
  entry : isAliasEntry m.2 = true
  request : parseEntry m.2 = .ok e.2

/-- **The loop over the aliases.**  In the order of the section every alias goes to the end of
those already there, so the map the loop builds is the list of what was read. -/
theorem foldlM_addAlias {named : List (String × Json)} {acc res : Entries String ClaimRequest}
    (hso : Sorted named) (hacc : ∀ e ∈ acc, ∀ m ∈ named, e.1 < m.1) :
    named.foldlM (addAlias definitions) acc = .ok res ↔
      ∃ es, res = acc ++ es ∧ List.Forall₂ (AliasOf definitions) named es ∧
      (named = [] ∨ acc.length + named.length ≤ ascMaxCount) := by
  induction named generalizing acc with
  | nil =>
    simp only [List.foldlM_nil, pure_ok, List.forall₂_nil_left_iff, true_or, and_true,
      exists_eq_right, List.append_nil]
    exact eq_comm
  | cons m named ih =>
    obtain ⟨hm, hnm⟩ := List.pairwise_cons.1 hso
    have happ : ∀ req, insert acc m.1 req = acc ++ [(m.1, req)] :=
      fun req => insert_eq_append (fun e he => hacc e he m List.mem_cons_self) req
    have hacc' : ∀ req, ∀ e ∈ acc ++ [(m.1, req)], ∀ m' ∈ named, e.1 < m'.1 := by
      intro req e he m' hm'
      rcases List.mem_append.1 he with he | he
      · exact hacc e he m' (List.mem_cons_of_mem _ hm')
      · rw [List.mem_singleton.1 he]
        exact hm m' hm'
    rw [List.foldlM_cons, bind_ok]
    constructor
    · rintro ⟨_, hadd, hrs⟩
      obtain ⟨hpl, hdef, hsz, hent, req, hreq, rfl⟩ := addAlias_ok.1 hadd
      rw [happ, ih hnm (hacc' req)] at hrs
      obtain ⟨es, rfl, hes, hfew⟩ := hrs
      refine ⟨(m.1, req) :: es, by simp, .cons ⟨rfl, hpl, hdef, hent, hreq⟩ hes,
        .inr ?_⟩
      rcases hfew with rfl | hfew
      · exact hsz
      · simp only [List.length_append, List.length_cons] at hfew ⊢
        omega
    · rintro ⟨_, rfl, hes, hfew⟩
      obtain ⟨e, es, hm, hrs, rfl⟩ := List.forall₂_cons_left_iff.1 hes
      have hsz : acc.length + (named.length + 1) ≤ ascMaxCount := by
        simpa using hfew
      refine ⟨acc ++ [(m.1, e.2)], addAlias_ok.2 ⟨hm.plain, hm.defined, by omega, hm.entry, e.2,
        hm.request, (happ e.2).symm⟩, (ih hnm (hacc' e.2)).2 ⟨es, ?_, hrs, .inr ?_⟩⟩
      · rw [List.append_assoc, List.singleton_append, ← hm.name]
      · simp only [List.length_append, List.length_cons, List.length_nil]
        omega

theorem parseAliases_spec (hso : Sorted (sectionOf root name))
    (h : parseAliases root name definitions = .ok aliases) :
    AliasesAccepted definitions aliases ∧
    List.Forall₂ (AliasOf definitions) (aliasMembers (sectionOf root name)) aliases := by
  have hnm := sorted_aliasMembers hso
  obtain ⟨es, heq, hes, hfew⟩ := (foldlM_addAlias hnm (by simp)).1 h
  obtain rfl : aliases = es := heq
  have hea : ∀ e ∈ aliases, ∃ m, AliasOf definitions m e := fun e he =>
    (exists_of_mem_forall₂ hes he).imp fun _ hm => hm.2
  have hks : aliases.map Prod.fst = (aliasMembers (sectionOf root name)).map Prod.fst := by
    rw [← List.forall₂_eq_eq_eq, List.forall₂_map_left_iff, List.forall₂_map_right_iff]
    exact hes.flip.imp fun _ _ hm => hm.name
  refine ⟨⟨?_, ?_, ?_, ?_, ?_⟩, hes⟩
  · have hpw : (aliases.map Prod.fst).Pairwise (· < ·) := hks ▸ List.pairwise_map.2 hnm
    exact List.pairwise_map.1 hpw
  · have hlen := hes.length_eq
    rcases hfew with hnil | hfew
    · rw [hnil] at hlen
      simp [← hlen]
    · simpa [← hlen] using hfew
  · intro e he
    obtain ⟨m, hm⟩ := hea e he
    exact hm.name ▸ hm.plain
  · intro e he
    obtain ⟨m, hm⟩ := hea e he
    exact hm.name ▸ hm.defined
  · intro e he
    obtain ⟨_, hm⟩ := hea e he
    exact values_of_isAliasEntry hm.entry hm.request

/-- The canonical aliases of a section read back. -/
theorem AliasesAccepted.parseAliases (h : AliasesAccepted definitions aliases)
    (hms : aliasMembers (sectionOf root name) =
      mapEntries id (fun _ => ClaimRequest.toJson) aliases) :
    AsteriusIdp.parseAliases root name definitions = .ok aliases := by
  rw [AsteriusIdp.parseAliases, hms, foldlM_addAlias (h.sorted.mapEntries strictMono_id) (by simp)]
  refine ⟨aliases, rfl, ?_, .inr ?_⟩
  · rw [mapEntries, List.forall₂_map_left_iff, List.forall₂_same]
    intro e he
    exact ⟨rfl, h.plain e he, h.defined e he, isAliasEntry_toJson (h.values e he),
      parseEntry_toJson e.2⟩
  · simpa [mapEntries] using h.few

/-! ### The request -/

namespace AscRequest

/-- What every accepted request meets. -/
structure Accepted (asc : AscRequest) : Prop where
  sorted : Entries.Sorted asc.definitions
  few : asc.definitions.length ≤ ascMaxCount
  definitions : ∀ e ∈ asc.definitions, Definition.isAlias e.1 = true ∧ e.2.Accepted
  idToken : AliasesAccepted asc.definitions asc.idToken
  userinfo : AliasesAccepted asc.definitions asc.userinfo
  idRules : RulesAccepted asc.idRules
  userRules : RulesAccepted asc.userRules
  idKnown : rulesKnown asc.idRules asc.idToken = true
  userKnown : rulesKnown asc.userRules asc.userinfo = true
  nonempty : asc.definitions ≠ [] ∨ asc.idRules ≠ [] ∨ asc.userRules ≠ []

/-- An object that is not empty and has no other members has one of the two. -/
theorem isSome_lookup_of_names {object : Object} {a b : String} (hne : object ≠ [])
    (hnms : ∀ m ∈ object, m.1 ∈ [a, b]) : (lookup object a).isSome ∨ (lookup object b).isSome := by
  obtain ⟨m, hm⟩ := List.exists_mem_of_ne_nil _ hne
  have hso := isSome_lookup_iff.2 ⟨m.2, hm⟩
  rcases List.mem_pair.1 (hnms m hm) with hnm | hnm
  · exact .inl (hnm ▸ hso)
  · exact .inr (hnm ▸ hso)

theorem parseSao_spec {raw : Option Json} {rules : List Rule × List Rule}
    (h : parseSao raw = some rules) :
    RulesAccepted rules.1 ∧ RulesAccepted rules.2 ∧ (raw.isSome → rules.1 ≠ [] ∨ rules.2 ≠ []) := by
  have hno : RulesAccepted [] := ⟨by simp, by simp⟩
  unfold parseSao at h
  split at h
  · cases h
    exact ⟨hno, hno, by simp⟩
  · split_ifs at h with hsh
    simp only [bind_eq_some, Option.some.injEq] at h
    obtain ⟨_, hid, _, hu, rfl⟩ := h
    obtain ⟨hidAc, hidNe⟩ := parseRules_spec hid
    obtain ⟨huserA, huse⟩ := parseRules_spec hu
    refine ⟨hidAc, huserA, fun _ => ?_⟩
    -- some section is named, and a section that is named has a rule
    simp only [not_or, not_exists, not_and, not_not] at hsh
    exact (isSome_lookup_of_names hsh.1 hsh.2).imp hidNe huse
  · cases h

variable {root : Object} {asc : AscRequest}

theorem accepted_of_parse (hid : Sorted (sectionOf root "id_token"))
    (hu : Sorted (sectionOf root "userinfo")) (h : parse root = .ok (some asc)) :
    asc.Accepted ∧
    List.Forall₂ (AliasOf asc.definitions) (aliasMembers (sectionOf root "id_token")) asc.idToken ∧
    List.Forall₂ (AliasOf asc.definitions) (aliasMembers (sectionOf root "userinfo"))
      asc.userinfo := by
  unfold parse at h
  split at h
  · split_ifs at h
    cases h
  · simp only [bind_ok, okOr_ok, refuseIf_ok, exists_const, pure_ok,
      Option.some.injEq, not_or, not_not] at h
    obtain ⟨_, hms, _, hdf, _, hidT, _, huseri, _, hrl, ⟨hidKn, huserK⟩, rfl⟩ := h
    obtain ⟨hso, hfew, hne, hacc⟩ := parseDefinitions_spec hdf
    obtain ⟨hidAc, hidOf⟩ := parseAliases_spec hid hidT
    obtain ⟨huserA, huse⟩ := parseAliases_spec hu huseri
    obtain ⟨hidR, huserR, hrul⟩ := parseSao_spec hrl
    refine ⟨⟨hso, hfew, hacc, hidAc, huserA, hidR, huserR, hidKn, huserK, ?_⟩, hidOf, huse⟩
    -- the `_asc` object has a member, and each of the two brings something
    simp only [ascOf, bind_eq_some] at hms
    obtain ⟨_, -, hms⟩ := hms
    split_ifs at hms with hsh
    cases hms
    simp only [not_or, not_exists, not_and, not_not] at hsh
    exact (isSome_lookup_of_names hsh.1 hsh.2).imp hne hrul

theorem lookup_saoJson (asc : AscRequest) (name : String) :
    lookup asc.saoJson name =
      if name = "userinfo" ∧ asc.userRules ≠ [] then some (.arr (asc.userRules.map Rule.toJson))
      else if name = "id_token" ∧ asc.idRules ≠ [] then some (.arr (asc.idRules.map Rule.toJson))
      else none := by
  unfold saoJson
  split_ifs <;> simp_all [lookup_insert]

theorem saoJson_eq_nil : asc.saoJson = [] ↔ asc.idRules = [] ∧ asc.userRules = [] := by
  have hne : ∀ (m : Object) (name : String) (v : Json), insert m name v ≠ [] := by
    intro m name v hnil
    have := lookup_insert_self m name v
    simp [hnil] at this
  unfold saoJson
  by_cases hid : asc.idRules = [] <;> by_cases hu : asc.userRules = [] <;>
    simp [hu, hne]

theorem Accepted.parseSao_saoJson (h : asc.Accepted) (hne : asc.saoJson ≠ []) :
    parseSao (some (.obj asc.saoJson)) = some (asc.idRules, asc.userRules) := by
  have hnms : ¬∃ m ∈ asc.saoJson, m.1 ∉ ["id_token", "userinfo"] := by
    rintro ⟨m, hm, hnot⟩
    have hso := isSome_lookup_iff.2 ⟨m.2, hm⟩
    simp only [List.mem_cons, List.not_mem_nil, not_or] at hnot
    simp [lookup_saoJson, hnot] at hso
  have hid : parseRules (lookup asc.saoJson "id_token") = some asc.idRules := by
    rw [lookup_saoJson]
    by_cases hnil : asc.idRules = []
    · simp [hnil, parseRules]
    · simpa [hnil] using h.idRules.parseRules_toJson hnil
  have hu : parseRules (lookup asc.saoJson "userinfo") = some asc.userRules := by
    rw [lookup_saoJson]
    by_cases hnil : asc.userRules = []
    · simp [hnil, parseRules]
    · simpa [hnil] using h.userRules.parseRules_toJson hnil
  simp only [parseSao, hne, hnms, or_self, if_false, hid, hu, Option.bind_eq_bind, Option.bind_some]

theorem lookup_ascJson (asc : AscRequest) (name : String) :
    lookup asc.ascJson name =
      if name = "sao" ∧ asc.saoJson ≠ [] then some (.obj asc.saoJson)
      else if name = "transformed_claims" ∧ asc.definitions ≠ [] then
        some (.obj (collect (mapEntries id (fun _ => Definition.toJson) asc.definitions)))
      else none := by
  unfold ascJson
  split_ifs <;> simp_all [lookup_insert]

theorem Accepted.ascOf_ascJson (h : asc.Accepted) :
    ascOf (.obj asc.ascJson) = some asc.ascJson := by
  have hnms : ¬∃ m ∈ asc.ascJson, m.1 ∉ ["transformed_claims", "sao"] := by
    rintro ⟨m, hm, hnot⟩
    have hso := isSome_lookup_iff.2 ⟨m.2, hm⟩
    simp only [List.mem_cons, List.not_mem_nil, not_or] at hnot
    simp [lookup_ascJson, hnot] at hso
  have hne : asc.ascJson ≠ [] := by
    intro hnil
    have hdf := asc.lookup_ascJson "transformed_claims"
    have hsao := asc.lookup_ascJson "sao"
    rw [hnil] at hdf hsao
    rcases h.nonempty with hne | hne | hne
    · simp [hne] at hdf
    · simp [saoJson_eq_nil, hne] at hsao
    · simp [saoJson_eq_nil, hne] at hsao
  simp only [ascOf, asObject, hne, hnms, or_self, if_false, Option.bind_eq_bind, Option.bind_some]

/-- **The canonical members read back.**  A document with the canonical `_asc` object whose
sections hold the canonical aliases, and no others, is parsed to the request. -/
theorem Accepted.parse_of_members (h : asc.Accepted)
    (hasc : lookup root "_asc" = some (.obj asc.ascJson))
    (hid : aliasMembers (sectionOf root "id_token") =
      mapEntries id (fun _ => ClaimRequest.toJson) asc.idToken)
    (hu : aliasMembers (sectionOf root "userinfo") =
      mapEntries id (fun _ => ClaimRequest.toJson) asc.userinfo) :
    parse root = .ok (some asc) := by
  have hdf : parseDefinitions (lookup asc.ascJson "transformed_claims") =
      some asc.definitions := by
    rw [lookup_ascJson]
    by_cases hnil : asc.definitions = []
    · simp [hnil, parseDefinitions]
    · simpa [hnil] using parseDefinitions_toJson h.sorted hnil h.few h.definitions
  have hsao : parseSao (lookup asc.ascJson "sao") = some (asc.idRules, asc.userRules) := by
    rw [lookup_ascJson]
    by_cases hnil : asc.saoJson = []
    · obtain ⟨hidN, huse⟩ := saoJson_eq_nil.1 hnil
      simp [hnil, parseSao, hidN, huse]
    · simpa [hnil] using h.parseSao_saoJson hnil
  simp only [parse, hasc, bind_ok, okOr_ok, refuseIf_ok, exists_const]
  exact ⟨asc.ascJson, h.ascOf_ascJson, asc.definitions, hdf, asc.idToken,
    h.idToken.parseAliases hid, asc.userinfo, h.userinfo.parseAliases hu, _, hsao,
    by simp [h.idKnown, h.userKnown], rfl⟩

/-! ### How deep the canonical form nests -/

theorem plain_of_scalar {v : Json} (h : scalar v = true) (n : ℕ) : Plain (n + 1) v := by
  cases v with
  | str => exact plain_str _ _
  | bool => exact plain_bool _ _
  | num => exact plain_num _ _
  | _ => cases h

theorem scalar_of_acceptedAt {index : ℕ} {call : Call} (h : call.acceptedAt index = true) :
    scalar call.argument = true := by
  obtain ⟨name, argument⟩ := call
  simp only [Call.acceptedAt, Bool.and_eq_true] at h
  cases argument <;> cases name <;>
    first | rfl | exact absurd h.1 (by simp [FunctionName.takes, scalar, asStr])

theorem plain_calls {index : ℕ} {calls : List Call} (h : acceptedCalls index calls = true) :
    Plain 3 (.arr (calls.map Call.toJson)) := by
  refine plain_arr.2 (List.forall_mem_map.2 ?_)
  induction calls generalizing index with
  | nil => simp
  | cons call calls ih =>
    simp only [acceptedCalls, Bool.and_eq_true] at h
    refine List.forall_mem_cons.2 ⟨plain_arr.2 ?_, ih h.2⟩
    simp only [List.mem_cons, List.not_mem_nil, or_false, forall_eq_or_imp, forall_eq]
    exact ⟨plain_str _ _, plain_of_scalar (scalar_of_acceptedAt h.1) _⟩

theorem plain_definition {definition : Definition} (h : definition.Accepted) :
    Plain 4 definition.toJson := by
  have hlt : ("claim" : String) < "fn" := by decide
  refine plain_obj.2 ⟨?_, ?_⟩
  · exact List.pairwise_pair.2 hlt
  · simp only [List.mem_cons, List.not_mem_nil, or_false, forall_eq_or_imp, forall_eq]
    exact ⟨⟨by decide, plain_str _ _⟩, by decide, plain_calls h.calls⟩

theorem plain_rule {rule : Rule} (h : rule.Accepted) : Plain 3 rule.toJson := by
  obtain ⟨loc, expected, omitted⟩ := rule
  have hloc : Plain 3 (.obj (insert [] "loc" (.str (Text.cons '/' loc)))) :=
    (plain_obj_nil 2).insert (by decide) (plain_str _ _)
  have hpat : ∀ names : List String,
      Plain 2 (.arr (names.map fun name => .str (Text.cons '/' name))) :=
    fun names => plain_arr.2 (List.forall_mem_map.2 fun name _ => plain_str _ _)
  have hexpc : ∀ values, expected = some values → Plain 2 (.arr values) := fun values hval =>
    plain_arr.2 fun v hv =>
      plain_of_scalar (List.all_eq_true.1 (h.expected values hval).2.2 v hv) _
  cases expected with
  | none =>
    have hmt := hloc.insert (by decide : isSerdeJsonSentinel "method" = false)
      (plain_str _ "exists")
    cases omitted with
    | none => exact hmt.insert (by decide) (plain_str _ _)
    | some names =>
      exact (hmt.insert (by decide) (plain_str _ _)).insert (by decide) (hpat names)
  | some values =>
    have hmt := (hloc.insert (by decide : isSerdeJsonSentinel "method" = false)
      (plain_str _ "simple")).insert (by decide : isSerdeJsonSentinel "values" = false)
      (hexpc values rfl)
    cases omitted with
    | none => exact hmt.insert (by decide) (plain_str _ _)
    | some names =>
      exact (hmt.insert (by decide) (plain_str _ _)).insert (by decide) (hpat names)

theorem plain_rules {rules : List Rule} (h : RulesAccepted rules) :
    Plain 4 (.arr (rules.map Rule.toJson)) :=
  plain_arr.2 (List.forall_mem_map.2 fun rule hrl => plain_rule (h.each rule hrl))

theorem Accepted.plain_ascJson (h : asc.Accepted) : Plain 6 (.obj asc.ascJson) := by
  have hsao : Plain 5 (.obj asc.saoJson) := by
    unfold saoJson
    split_ifs
    · exact plain_obj_nil _
    · exact (plain_obj_nil _).insert (by decide) (plain_rules h.userRules)
    · exact (plain_obj_nil _).insert (by decide) (plain_rules h.idRules)
    · exact ((plain_obj_nil _).insert (by decide) (plain_rules h.idRules)).insert (by decide)
        (plain_rules h.userRules)
  have hali : ∀ name, Definition.isAlias name = true → isSerdeJsonSentinel name = false := by
    intro name hnm
    have hnot : ∀ name ∈ serdeJsonSentinels, Definition.isAlias name = false := by decide
    by_contra hse
    rw [Bool.not_eq_false, isSerdeJsonSentinel_iff] at hse
    exact Bool.false_ne_true ((hnot name hse).symm.trans hnm)
  have hdf : Plain 5 (.obj (collect
      (mapEntries id (fun _ => Definition.toJson) asc.definitions))) :=
    plain_obj_collect (List.forall_mem_map.2 fun e he =>
      ⟨hali _ (h.definitions e he).1, (plain_definition (h.definitions e he).2).mono (by decide)⟩)
  unfold ascJson
  split_ifs
  · exact plain_obj_nil _
  · exact (plain_obj_nil _).insert (by decide) hsao
  · exact (plain_obj_nil _).insert (by decide) hdf
  · exact ((plain_obj_nil _).insert (by decide) hdf).insert (by decide) hsao

end AscRequest

end AsteriusIdp
