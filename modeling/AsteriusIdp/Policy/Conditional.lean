import AsteriusIdp.Policy.Engine

/-!
# Conditional scopes

A conditional scope guards some actions of some applications with rules that may read trusted
facts.  Before any rule is evaluated, every fact that the applicable rules refer to has to be
known, so that missing evidence never reaches the boolean operators of a condition.

* `Condition.mem_referenced`: the collector finds every fact a condition mentions, at any depth.
* `Condition.holds_eq_of_agreesOn`: a condition reads no other fact.
* `ConditionalScope.evaluate_guarded`: missing evidence is never a permit, and facts that are not
  required do not influence the decision.
-/

namespace AsteriusIdp.Policy

/-! ### The facts a condition refers to -/

namespace Condition

mutual

/-- Adds the facts a condition refers to. -/
def referenced : Condition → Finset FactName → Finset FactName
  | .all children, required => referencedAll children required
  | .any children, required => referencedAll children required
  | .not child, required => referenced child required
  | .trusted predicate, required => insert predicate.fact required
  | .acrAtLeast _, required => insert .assurance required
  | .group _, required => insert .groups required
  | .role _ _, required => insert .roles required
  | .grant _, required => insert .grants required
  | .attr _ _ _, required => required

/-- The facts of a list. -/
def referencedAll : List Condition → Finset FactName → Finset FactName
  | [], required => required
  | child :: children, required => referencedAll children (referenced child required)

end

/-- The condition reads the fact somewhere in its tree. -/
inductive Mentions (name : FactName) : Condition → Prop
  | all {children : List Condition} {child : Condition} :
    child ∈ children → Mentions name child → Mentions name (.all children)
  | any {children : List Condition} {child : Condition} :
    child ∈ children → Mentions name child → Mentions name (.any children)
  | not {child : Condition} : Mentions name child → Mentions name (.not child)
  | trusted {predicate : TrustedPredicate} :
    name = predicate.fact → Mentions name (.trusted predicate)
  | acrAtLeast {required : String} : name = .assurance → Mentions name (.acrAtLeast required)
  | group {group : String} : name = .groups → Mentions name (.group group)
  | role {owner : Option RoleOwner} {role : String} :
    name = .roles → Mentions name (.role owner role)
  | grant {matcher : GrantMatch} : name = .grants → Mentions name (.grant matcher)

variable {name : FactName}

theorem Mentions.of_child {c child : Condition} (hkid : child ∈ c.children)
    (h : child.Mentions name) : c.Mentions name := by
  cases c with
  | all => exact .all hkid h
  | any => exact .any hkid h
  | not => exact .not (List.mem_singleton.1 hkid ▸ h)
  | _ => cases hkid

theorem mem_referencedAll {cs : List Condition}
    (h : ∀ c ∈ cs, ∀ required, name ∈ c.referenced required ↔ name ∈ required ∨ c.Mentions name)
    (required : Finset FactName) :
    name ∈ referencedAll cs required ↔ name ∈ required ∨ ∃ c ∈ cs, c.Mentions name := by
  induction cs generalizing required with
  | nil => simp [referencedAll]
  | cons child cs ih =>
    have hkid := h child List.mem_cons_self required
    have hrs := ih (fun c hc => h c (List.mem_cons_of_mem _ hc)) (child.referenced required)
    rw [referencedAll, hrs, hkid, List.exists_mem_cons_iff, or_assoc]

/-- The collector adds exactly the facts a condition mentions. -/
theorem mem_referenced (c : Condition) (required : Finset FactName) :
    name ∈ c.referenced required ↔ name ∈ required ∨ c.Mentions name := by
  induction c using tree_induction generalizing required with
  | node c ih =>
    cases c with
    | all children | any children =>
      rw [referenced, @mem_referencedAll name children ih]
      refine or_congr Iff.rfl ⟨fun ⟨c, hc, h⟩ => .of_child hc h, fun h => ?_⟩
      cases h
      exact ⟨_, ‹_›, ‹_›⟩
    | not child =>
      rw [referenced, ih child List.mem_cons_self]
      refine or_congr Iff.rfl ⟨.not, fun h => ?_⟩
      cases h with
      | not h => exact h
    | attr => exact ⟨Or.inl, fun h => h.elim id nofun⟩
    | _ =>
      rw [referenced, Finset.mem_insert, or_comm]
      refine or_congr Iff.rfl ⟨fun h => ?_, fun h => ?_⟩
      · constructor
        exact h
      · cases h
        assumption

end Condition

/-! ### Requests that agree on some facts -/

/-- Two snapshots differ at most in facts outside `required`. -/
def TrustedAccessContext.AgreesOn (required : Finset FactName) (t₁ t₂ : TrustedAccessContext) :
    Prop :=
  t₂ = { t₁ with facts := t₂.facts } ∧ ∀ name ∈ required, t₂.facts name = t₁.facts name

/-- Two requests differ at most in trusted facts outside `required`. -/
def EvaluationRequest.AgreesOn (required : Finset FactName) (r₁ r₂ : EvaluationRequest) : Prop :=
  r₂ = { r₁ with context := { r₁.context with trusted := r₂.context.trusted } } ∧
    Option.Rel (TrustedAccessContext.AgreesOn required) r₁.context.trusted r₂.context.trusted

namespace TrustedAccessContext.AgreesOn

variable {required : Finset FactName} {t₁ t₂ : TrustedAccessContext} {name : FactName}

section

variable (h : AgreesOn required t₁ t₂)
include h

theorem evaluatedAt_eq : t₂.evaluatedAt = t₁.evaluatedAt := by
  rw [h.1]

theorem availability_eq (hnm : name ∈ required) : t₂.availability name = t₁.availability name := by
  have hok : t₂.validValue name = t₁.validValue name := by
    unfold validValue
    rw [h.evaluatedAt_eq]
  unfold availability
  rw [h.2 name hnm, h.evaluatedAt_eq, hok]

theorem value_eq (hnm : name ∈ required) : t₂.value name = t₁.value name := by
  unfold value
  rw [h.availability_eq hnm, h.2 name hnm]

theorem holds_eq {p : TrustedPredicate} (hnm : p.fact ∈ required) : p.holds t₂ = p.holds t₁ := by
  unfold TrustedPredicate.holds
  rw [h.value_eq hnm, h.evaluatedAt_eq]

end

end TrustedAccessContext.AgreesOn

theorem Condition.Mentions.of_mem_nodes {name : FactName} {c node : Condition}
    (h : node.Mentions name) (hnd : node ∈ c.nodes) : c.Mentions name := by
  induction c using tree_induction with
  | node c ih =>
    rw [nodes_eq, List.mem_cons, List.mem_flatMap] at hnd
    obtain rfl | ⟨child, hkid, hnd⟩ := hnd
    · exact h
    · exact .of_child hkid (ih child hkid hnd)

variable {r₁ r₂ : EvaluationRequest}

/-- Requests that differ in the snapshot only are told apart by the predicates that read it, and
by the `acr` tests through the assurance it vouches for. -/
theorem Condition.holds_eq_of_snapshot {t₁ t₂ : TrustedAccessContext}
    (hrs : r₂ = { r₁ with context := { r₁.context with trusted := some t₂ } })
    (ht₁ : r₁.context.trusted = some t₁) (c : Condition)
    (hass : ∀ acr, .acrAtLeast acr ∈ c.nodes → t₂.value .assurance = t₁.value .assurance)
    (htru : ∀ p, .trusted p ∈ c.nodes →
      p.holds t₂ = p.holds t₁) : c.holds r₂ = c.holds r₁ := by
  subst hrs
  refine holds_congr c fun node hnd hlf => ?_
  cases node with
  | all | any | not => exact hlf.elim
  | attr source => cases source <;> rfl
  | group | role | grant => rfl
  | acrAtLeast acr =>
    rw [holds, holds, Context.acrAtLeast, Context.acrAtLeast]
    simp [ht₁, hass acr hnd]
  | trusted p =>
    rw [holds, holds, ht₁, Option.any_some, Option.any_some, htru p hnd]

/-- A condition reads trusted facts only through those it mentions. -/
theorem Condition.holds_eq_of_agreesOn {required : Finset FactName} (h : r₁.AgreesOn required r₂)
    (c : Condition) (hc : ∀ name, c.Mentions name → name ∈ required) : c.holds r₂ = c.holds r₁ := by
  obtain ⟨hrs, htru⟩ := h
  cases ht₁ : r₁.context.trusted with
  | none =>
    cases ht₂ : r₂.context.trusted with
    | none =>
      have hsm : r₂ = r₁ := by rw [hrs, ht₂, ← ht₁]
      rw [hsm]
    | some => simp [ht₁, ht₂] at htru
  | some t₁ =>
    cases ht₂ : r₂.context.trusted with
    | none => simp [ht₁, ht₂] at htru
    | some t₂ =>
      have hagr : t₁.AgreesOn required t₂ := by simpa [ht₁, ht₂] using htru
      refine holds_eq_of_snapshot (ht₂ ▸ hrs) ht₁ c (fun acr hnd => ?_) fun p hnd => ?_
      · exact hagr.value_eq (hc _ (.of_mem_nodes (.acrAtLeast rfl) hnd))
      · exact hagr.holds_eq (hc _ (.of_mem_nodes (.trusted rfl) hnd))

/-! ### Scopes -/

/-- The rules that guard some actions of some applications. -/
structure ConditionalScope where
  clients : Finset String
  actions : Finset String
  /-- Facts the scope requires whatever its rules refer to. -/
  requiredFacts : Finset FactName
  rules : RuleSet

namespace ConditionalScope

/-- The selectors of a rule apply to the request. -/
def selects (request : EvaluationRequest) (rule : Rule) : Bool :=
  rule.subjectType.all (· = request.subject.kind) &&
  rule.resourceType.all (· = request.resource.kind) &&
  (rule.actions = ∅ || request.action.name ∈ rule.actions)

/-- Adds the facts the condition of a rule refers to. -/
def ruleFacts (required : Finset FactName) (rule : Rule) : Finset FactName :=
  match rule.when with
  | some condition => condition.referenced required
  | none => required

/-- Every fact a rule of the scope refers to. -/
def required (scope : ConditionalScope) : Finset FactName :=
  scope.rules.rules.foldl ruleFacts scope.requiredFacts

/-- The facts required for one request: a rule that does not apply to it requires nothing. -/
def requiredFor (scope : ConditionalScope) (request : EvaluationRequest) : Finset FactName :=
  (scope.rules.rules.filter (selects request)).foldl ruleFacts scope.requiredFacts

/-- The scope governs the action. -/
def applies (scope : ConditionalScope) (client action : String) : Bool :=
  client ∈ scope.clients ∧ action ∈ scope.actions

/-- The decision of a scope.  The availability of the evidence is checked before any rule. -/
def evaluate (scope : ConditionalScope) (request : EvaluationRequest) : Decision :=
  match request.context.trusted with
  | none => .defaultDeny "conditional transaction evidence absent"
  | some trusted =>
    if trusted.subject.any (· ≠ request.subject.id) ∨ ¬scope.applies trusted.client trusted.action ∨
    ∃ name ∈ scope.requiredFor request, trusted.availability name ≠ .known then
    .defaultDeny "conditional required facts unavailable"
    else scope.rules.evaluate request

variable {name : FactName}

theorem mem_foldl_ruleFacts (rules : List Rule) (required : Finset FactName) :
    name ∈ rules.foldl ruleFacts required ↔
      name ∈ required ∨ ∃ rule ∈ rules, ∃ c ∈ rule.when, c.Mentions name := by
  induction rules generalizing required with
  | nil => simp
  | cons rule rest ih =>
    have hrl : name ∈ ruleFacts required rule ↔
        name ∈ required ∨ ∃ c ∈ rule.when, c.Mentions name := by
      unfold ruleFacts
      cases rule.when with
      | none => simp
      | some => simp [Condition.mem_referenced]
    rw [List.foldl_cons, ih, hrl, List.exists_mem_cons_iff, or_assoc]

theorem mem_requiredFor {scope : ConditionalScope} {req : EvaluationRequest}
    : name ∈ scope.requiredFor req ↔ name ∈ scope.requiredFacts ∨
    ∃ rule ∈ scope.rules.rules, selects req rule ∧ ∃ c ∈ rule.when, c.Mentions name := by
  simp [requiredFor, mem_foldl_ruleFacts, and_assoc]

/-- The engine applies a rule only if the scope counts its facts as required. -/
theorem matchesRequest_eq (rule : Rule) (req : EvaluationRequest) :
    rule.matchesRequest req = (selects req rule && rule.when.all (·.holds req)) := by
  unfold Rule.matchesRequest selects
  cases rule.subjectType <;> cases rule.resourceType <;> grind

end ConditionalScope

/-- What is known about a fact for a request; nothing is without a snapshot. -/
def EvaluationRequest.availability (request : EvaluationRequest) (name : FactName) :
    Availability :=
  match request.context.trusted with
  | some trusted => trusted.availability name
  | none => .absent

namespace ConditionalScope

variable {scope : ConditionalScope}

theorem evaluate_permit_availability {req : EvaluationRequest} (h : (scope.evaluate req).permit) :
    ∀ name ∈ scope.requiredFor req, req.availability name = .known := by
  unfold evaluate at h
  unfold EvaluationRequest.availability
  cases htru : req.context.trusted with
  | none => simp [htru, Decision.defaultDeny] at h
  | some =>
    simp only [htru] at h ⊢
    split_ifs at h with hgrd
    · simp [Decision.defaultDeny] at h
    · push Not at hgrd
      exact hgrd.2.2

theorem evaluate_eq_of_agreesOn {r₁ r₂ : EvaluationRequest}
    (h : r₁.AgreesOn (scope.requiredFor r₁) r₂) : scope.evaluate r₂ = scope.evaluate r₁ := by
  have hsel : selects r₂ = selects r₁ := by
    rw [h.1]
    rfl
  have hrqd : scope.requiredFor r₂ = scope.requiredFor r₁ := by
    rw [requiredFor, requiredFor, hsel]
  have hrul : scope.rules.evaluate r₂ = scope.rules.evaluate r₁ := by
    refine RuleSet.evaluate_congr fun rule hmem => ?_
    rw [matchesRequest_eq, matchesRequest_eq, hsel]
    cases hrl : selects r₁ rule with
    | false => rfl
    | true =>
      cases hwn : rule.when with
      | none => rfl
      | some c =>
        refine Condition.holds_eq_of_agreesOn h c fun name hnm => ?_
        exact mem_requiredFor.2 (.inr ⟨rule, hmem, hrl, c, hwn, hnm⟩)
  have hid : r₂.subject.id = r₁.subject.id := by rw [h.1]
  have htru := h.2
  rw [evaluate, evaluate, hrqd, hrul, hid]
  generalize r₁.context.trusted = o₁, r₂.context.trusted = o₂ at htru
  cases htru with
  | none => rfl
  | @some t₁ t₂ ht =>
    have hsj : t₂.subject = t₁.subject := by rw [ht.1]
    have hcli : t₂.client = t₁.client := by rw [ht.1]
    have hact : t₂.action = t₁.action := by rw [ht.1]
    have hmi : (∃ name ∈ scope.requiredFor r₁, t₂.availability name ≠ .known) ↔
        ∃ name ∈ scope.requiredFor r₁, t₁.availability name ≠ .known :=
      exists_congr fun name => and_congr_right fun hnm => by rw [ht.availability_eq hnm]
    simp [hsj, hcli, hact, hmi]

/-- Missing evidence is never a permit: if a rule that applies to the request mentions, at any
depth of its condition, a fact that is not known, the scope denies.  And the decision depends on
no trusted fact beyond those required for the request. -/
theorem evaluate_guarded (scope : ConditionalScope) (request : EvaluationRequest) :
    (∀ rule ∈ scope.rules.rules, selects request rule →
      ∀ condition ∈ rule.when, ∀ name, condition.Mentions name →
        request.availability name ≠ .known → (scope.evaluate request).permit = false) ∧
    ∀ other, request.AgreesOn (scope.requiredFor request) other →
      scope.evaluate other = scope.evaluate request := by
  refine ⟨fun rule hrl hsel condition hcd name hnm hunk => ?_,
    fun other hoth => evaluate_eq_of_agreesOn hoth⟩
  by_contra hpm
  rw [Bool.not_eq_false] at hpm
  have hrqd : name ∈ scope.requiredFor request :=
    mem_requiredFor.2 (.inr ⟨rule, hrl, hsel, condition, hcd, hnm⟩)
  exact hunk (evaluate_permit_availability hpm name hrqd)

/-- A scope that lets `app` in from outside the office, or with standard sensitivity. -/
def outsideOffice : ConditionalScope :=
  { clients := {"app"}
    actions := {"authorize"}
    requiredFacts := ∅
    rules := ⟨[{ id := "r", effect := .permit, subjectType := none, resourceType := none,
                 actions := ∅, reasonAdmin := none, reasonUser := none, acrValues := [],
                 when := some (.any [.not (.trusted (.networkZone "office")),
                   .trusted (.sensitivity "standard")]) }]⟩ }

/-- A request of `app` with some facts. -/
def requestWith (facts : FactName → Option Fact) : EvaluationRequest :=
  { subject := { kind := "user", id := "u", properties := [], groups := ∅,
                 roles := { tenant := ∅, clients := [] }, grants := [] }
    action := { name := "authorize", properties := [] }
    resource := { kind := "client", id := "app", properties := [] }
    context := { acr := none, ladder := [], properties := [],
                 trusted := some
                  { tenant := "t", subject := some "u", client := "app", action := "authorize",
                    evaluatedAt := 10, policyRevision := "1", acrRevision := "1",
                    clientRevision := "1", facts := facts } } }

/-- The facts of a request from a zone, of an application of standard sensitivity. -/
def zoneFacts (zones : Option (Finset String)) (device : Option Fact) : FactName → Option Fact
  | .networkZone => zones.map fun zones =>
    { availability := .known, value := some (.names zones), source := "edge",
      observedAt := some 0, expiresAt := some 20 }
  | .applicationSensitivity => some
    { availability := .known, value := some (.text "standard"), source := "registry",
      observedAt := some 0, expiresAt := some 20 }
  | .deviceCompliance => device
  | _ => none

theorem evaluate_guarded_outsideOffice :
    (outsideOffice.evaluate (requestWith (zoneFacts none none))).permit = false ∧
    (outsideOffice.evaluate (requestWith (zoneFacts (some {"home"}) none))).permit = true ∧
    outsideOffice.evaluate (requestWith (zoneFacts (some {"home"})
        (some { availability := .stale, value := none, source := "mdm", observedAt := none,
                expiresAt := none }))) =
      outsideOffice.evaluate (requestWith (zoneFacts (some {"home"}) none)) := by
  refine ⟨?_, by decide, ?_⟩
  · refine (evaluate_guarded outsideOffice _).1 _ List.mem_cons_self (by decide) _ rfl .networkZone
      (.any List.mem_cons_self (.not (.trusted rfl))) (by decide)
  · refine (evaluate_guarded outsideOffice _).2 _ ⟨rfl, .some ⟨rfl, fun name hnm => ?_⟩⟩
    revert hnm
    cases name <;> decide

end ConditionalScope

end AsteriusIdp.Policy
