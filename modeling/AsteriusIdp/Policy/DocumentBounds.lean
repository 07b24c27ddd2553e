import AsteriusIdp.Policy.DocumentRoundTrip

/-!
# What every accepted policy document keeps

The reader counts rules, conditions and levels while it reads, and compares each conditional scope
with those before it.  Whatever the document looked like, what it returns is bounded, its top-level
rules read no trusted fact, the zones a scope tests are its own, and no two scopes guard the same
action of the same client.

* `scopes_of_parseScopes`: the loop over the scopes keeps them apart.
* `Document.wellFormed_of_fromJson`: the whole of it.

Rule identifiers are told apart within one list of rules, the unit of an evaluation: a top-level
rule may have the identifier of a rule of a scope (`fromJson_sharedId`).
-/

namespace AsteriusIdp.Policy

open Fallible Json

variable {ν : Type} {format : Format ν}

/-! ### Conditions -/

theorem Condition.every_ne_trusted {c : Condition} (h : c.containsTrusted = false) :
    c.Every fun node => ∀ p, node ≠ .trusted p := by
  rintro _ hnd _ rfl
  exact Bool.false_ne_true (h.symm.trans (List.any_eq_true.2 ⟨_, hnd, rfl⟩))

theorem zonesDefined_iff {zones : Entries String (List ν)} {rule : Rule} :
    zonesDefined zones rule = true ↔ ∀ c ∈ rule.when, c.Every fun node =>
      ∀ name, node = .trusted (.networkZone name) → zones.contains name = true := by
  unfold zonesDefined
  cases rule.when with
  | none => simp
  | some c =>
    simp only [Option.all_some, List.all_eq_true, Option.mem_some_iff, forall_eq']
    refine forall₂_congr fun node _ => ?_
    split
    · simp
    · rename_i hoth
      exact ⟨fun _ name hnm => absurd hnm (hoth name), fun _ => rfl⟩

/-! ### Scopes -/

/-- Two scopes that guard the same action of the same client clash. -/
theorem DocumentScope.clashes_of_applies {a b : DocumentScope ν} {client action : String}
    (ha : a.applies client action = true) (hb : b.applies client action = true) :
    a.clashes b = true := by
  simp only [ConditionalScope.applies, decide_eq_true_eq] at ha hb
  simp only [DocumentScope.clashes, decide_eq_true_eq]
  refine .inr ⟨fun h => ?_, fun h => ?_⟩
  · exact Finset.disjoint_left.1 h ha.1 hb.1
  · exact Finset.disjoint_left.1 h ha.2 hb.2

theorem DocumentScope.id_ne_of_clashes {a b : DocumentScope ν} (h : a.clashes b = false) :
    a.id ≠ b.id := by
  intro hid
  simp [DocumentScope.clashes, hid] at h

/-- Among scopes that do not clash, at most one applies. -/
theorem length_filter_applies_le {scopes : List (DocumentScope ν)}
    (h : scopes.Pairwise fun a b => a.clashes b = false) (client action : String) :
    (scopes.filter (·.applies client action)).length ≤ 1 := by
  have hpw := h.filter (·.applies client action)
  have happ : ∀ scope ∈ scopes.filter (·.applies client action),
      scope.applies client action = true := fun scope hsc => (List.mem_filter.1 hsc).2
  generalize scopes.filter (·.applies client action) = applying at hpw happ
  match applying, hpw, happ with
  | [], _, _ | [_], _, _ => simp
  | a :: b :: _, hpw, happ =>
    have hcla := DocumentScope.clashes_of_applies (happ a (by simp)) (happ b (by simp))
    have hapa := (List.pairwise_cons.1 hpw).1 b (by simp)
    exact absurd (hcla.symm.trans hapa) (by decide)

variable [DecidableEq ν]

/-- What is checked of a scope by itself. -/
structure DocumentScope.Valid (scope : DocumentScope ν) : Prop where
  rules : RulesValid scope.rules.rules
  zones : ∀ rule ∈ scope.rules.rules, zonesDefined scope.networkZones rule = true

theorem DocumentScope.valid_of_parse {v : Json} {scope : DocumentScope ν}
    (h : DocumentScope.parse format v = .ok scope) : scope.Valid := by
  obtain ⟨_, -, -, -, -, -, hlen, _, hrul, hzon, rfl⟩ :=
    DocumentScope.parse_ok.1 h
  exact ⟨rulesValid_of_parseRules hrul hlen, hzon⟩

/-- The loop over the scopes: each is valid, and none clashes with one before it. -/
theorem scopes_of_parseScopes {vs : List Json} {seen scopes : List (DocumentScope ν)}
    (h : parseScopes format vs seen = .ok scopes) :
    (∀ scope ∈ scopes, scope.Valid) ∧ scopes.Pairwise (fun a b => a.clashes b = false) ∧
      ∀ a ∈ seen, ∀ b ∈ scopes, a.clashes b = false := by
  induction vs generalizing seen scopes with
  | nil =>
    cases h
    simp
  | cons v vs ih =>
    simp only [parseScopes, bind_ok, refuseIf_ok, pure_ok, exists_const, List.any_eq_true,
      not_exists, not_and, Bool.not_eq_true] at h
    obtain ⟨scope, hsc, hapa, rest, hrs, rfl⟩ := h
    obtain ⟨hok, hpw, hsn⟩ := ih hrs
    have hfst : ∀ b ∈ rest, scope.clashes b = false := hsn scope (by simp)
    refine ⟨List.forall_mem_cons.2 ⟨DocumentScope.valid_of_parse hsc, hok⟩,
      List.pairwise_cons.2 ⟨hfst, hpw⟩, fun a ha => List.forall_mem_cons.2 ⟨hapa a ha, ?_⟩⟩
    exact fun b hb => hsn a (List.mem_append_left _ ha) b hb

theorem scopes_of_parseConditionalScopes {object : Object} {scopes : List (DocumentScope ν)}
    (h : parseConditionalScopes format object = .ok scopes) :
    (∀ scope ∈ scopes, scope.Valid) ∧ scopes.Pairwise fun a b => a.clashes b = false := by
  rcases scopes_of_parse h with rfl | ⟨_, hpar, -⟩
  · simp
  · obtain ⟨hok, hpw, -⟩ := scopes_of_parseScopes hpar
    exact ⟨hok, hpw⟩

/-! ### Documents -/

/-- What an accepted document keeps. -/
structure Document.WellFormed (document : Document ν) : Prop where
  /-- Within one list of rules the identifiers differ. -/
  nodup_rules : (document.rules.map Rule.id).Nodup
  nodup_scopeRules : ∀ scope ∈ document.conditionalScopes, (scope.rules.rules.map Rule.id).Nodup
  nodup_scopes : (document.conditionalScopes.map DocumentScope.id).Nodup
  length_le : document.allRules.length ≤ 128
  nodes_le : ∀ rule ∈ document.allRules, ∀ c ∈ rule.when, c.nodes.length ≤ 64
  depth_le : ∀ rule ∈ document.allRules, ∀ c ∈ rule.when, c.depth ≤ 8
  untrusted : ∀ rule ∈ document.rules, ∀ c ∈ rule.when,
    c.Every fun node => ∀ predicate, node ≠ .trusted predicate
  zones : ∀ scope ∈ document.conditionalScopes, ∀ rule ∈ scope.rules.rules, ∀ c ∈ rule.when,
    c.Every fun node => ∀ name, node = .trusted (.networkZone name) →
      scope.networkZones.contains name = true
  applies_le : ∀ client action,
    (document.conditionalScopes.filter (·.applies client action)).length ≤ 1

omit [DecidableEq ν] in
theorem Document.length_allRules (doc : Document ν) : doc.allRules.length =
    doc.rules.length + (doc.conditionalScopes.map (·.rules.rules.length)).sum := by
  rw [Document.allRules, List.length_append, List.length_flatMap]

/-- **What the reader returns is well formed**, for documents of any shape. -/
theorem Document.wellFormed_of_fromJson {v : Json} {document : Document ν}
    (h : Document.fromJson format v = .ok document) : document.WellFormed := by
  obtain ⟨_, hhd, htru, hscs, hcnt⟩ := Document.fromJson_ok.1 h
  obtain ⟨-, -, -, _, -, hlen, hrules⟩ := parseHead_ok.1 hhd
  have hrul := rulesValid_of_parseRules hrules hlen
  obtain ⟨hscop, hpw⟩ := scopes_of_parseConditionalScopes hscs
  have hok : ∀ rule ∈ document.allRules, rule.Valid := by
    intro rule hrl
    rcases List.mem_append.1 hrl with hrl | hrl
    · exact hrul.valid rule hrl
    · obtain ⟨scope, hsc, hrl⟩ := List.mem_flatMap.1 hrl
      exact (hscop scope hsc).rules.valid rule hrl
  exact
    { nodup_rules := hrul.nodup
      nodup_scopeRules := fun scope hsc => (hscop scope hsc).rules.nodup
      nodup_scopes :=
        List.pairwise_map.2 (hpw.imp fun hapa => DocumentScope.id_ne_of_clashes hapa)
      length_le := document.length_allRules ▸ hcnt
      nodes_le := fun rule hrl c hc => ((hok rule hrl).when c hc).2.2
      depth_le := fun rule hrl c hc => ((hok rule hrl).when c hc).2.1
      untrusted := fun rule hrl c hc => Condition.every_ne_trusted <| by
        have hrl := htru rule hrl
        rwa [hc] at hrl
      zones := fun scope hsc rule hrl =>
        zonesDefined_iff.1 ((hscop scope hsc).zones rule hrl)
      applies_le := length_filter_applies_le hpw }

/-- A document whose top-level rule and whose scope's rule are both called `baseline`. -/
def sharedId : Json :=
  .obj [("conditional_scopes", .arr [.obj [("actions", .arr [.str "authorize"]),
      ("clients", .arr [.str "app"]), ("id", .str "office"), ("mode", .str "active"),
      ("rules", .arr [.obj [("effect", .str "permit"), ("id", .str "baseline")]])]]),
    ("rules", .arr [.obj [("effect", .str "permit"), ("id", .str "baseline")]]),
    ("version", .num (.posInt 1))]

theorem wellFormed_sharedId : ∃ doc,
    Document.fromJson plainFormat sharedId = .ok doc ∧ doc.WellFormed := by
  have hok : (Document.fromJson plainFormat sharedId).isOk = true := by decide +kernel
  generalize hpar : Document.fromJson plainFormat _ = result at hok
  cases result with
  | error => exact absurd hok Bool.false_ne_true
  | ok doc => exact ⟨doc, rfl, Document.wellFormed_of_fromJson hpar⟩

/-- Identifiers of a top-level rule and of a scope's rule need not differ. -/
theorem fromJson_sharedId : ∃ doc, Document.fromJson plainFormat sharedId = .ok doc ∧
    ¬(doc.allRules.map Rule.id).Nodup := by
  have hids : (match Document.fromJson plainFormat sharedId with
      | .error _ => none
      | .ok doc => some (doc.allRules.map Rule.id)) = some ["baseline", "baseline"] := by
    decide +kernel
  generalize hpar : Document.fromJson plainFormat _ = result at hids
  cases result with
  | error => cases hids
  | ok doc =>
    refine ⟨doc, rfl, ?_⟩
    rw [Option.some.inj hids]
    decide

end AsteriusIdp.Policy
