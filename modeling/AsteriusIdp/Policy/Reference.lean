import AsteriusIdp.Policy.Explanation

/-!
# Deny overrides

What a rule set is meant to decide, apart from how the engine walks it.  A reading of the
conditions is *standard* for a request when it takes `all`, `any` and `not` as the connectives they
are named after and every test as the fact it asks about.  There is one such reading, the engine's
(`standard_holds`, `Standard.iff_holds`).

* `evaluate_isReference` : the engine decides by the first matching `deny`, then by the first
  matching `permit`, then denies.
* `evaluate_permit_iff` : it permits when some `permit` matches and no `deny` does, which does not
  depend on the order of the rules.
-/

namespace AsteriusIdp.Policy

open Condition

variable {req : EvaluationRequest}

/-! ### The meaning of conditions and selectors -/

/-- The value passes the test; an array does if one of its items is listed. -/
def AttributeTest.Passes (value : Json) : AttributeTest → Prop
  | .equals expected => value = expected
  | .in_ expected =>
    (∃ items, value = .arr items ∧ ∃ item ∈ items, item ∈ expected) ∨
      (∀ items, value ≠ .arr items) ∧ value ∈ expected

/-- One grant carries everything that is asked for, the type and the action of a detail on one
element. -/
structure GrantMatch.Satisfied (matcher : GrantMatch) (grant : ActiveGrant)
    (request : EvaluationRequest) : Prop where
  client : ∀ client ∈ matcher.client, grant.client = client
  literal : ∀ raw, matcher.resource = some (.literal raw) → raw ∈ grant.resources
  theResource : matcher.resource = some .theResource → request.resource.id ∈ grant.resources
  scope : ∀ scope ∈ matcher.scope, scope ∈ grant.scopes
  detail : matcher.detailType.isSome ∨ matcher.action.isSome → ∃ detail ∈ grant.details,
    (∀ detailType ∈ matcher.detailType, detail.detailType = detailType) ∧
      ∀ action ∈ matcher.action, action ∈ detail.actions

/-- A reading of conditions by the standard semantics. -/
structure Standard (request : EvaluationRequest) (V : Condition → Prop) : Prop where
  all : ∀ children, V (.all children) ↔ ∀ child ∈ children, V child
  any : ∀ children, V (.any children) ↔ ∃ child ∈ children, V child
  not : ∀ child, V (.not child) ↔ ¬V child
  attr : ∀ source name test, V (.attr source name test) ↔
    ∃ value ∈ (source.properties request).lookup name, test.Passes value
  group : ∀ name, V (.group name) ↔ name ∈ request.subject.groups
  role : ∀ owner name, V (.role owner name) ↔ request.subject.holdsRole owner name = true
  grant : ∀ matcher, V (.grant matcher) ↔
    ∃ grant ∈ request.subject.grants, matcher.Satisfied grant request
  acrAtLeast : ∀ required, V (.acrAtLeast required) ↔ request.context.acrAtLeast required = true
  trusted : ∀ predicate, V (.trusted predicate) ↔
    ∃ trusted ∈ request.context.trusted, predicate.holds trusted = true

theorem AttributeTest.compare_iff (value : Json) (test : AttributeTest) :
    test.compare value = true ↔ test.Passes value := by
  cases test with
  | equals => simp [compare, Passes]
  | in_ => cases value <;> simp [compare, Passes]

theorem GrantMatch.grantMatches_iff (matcher : GrantMatch) (grant : ActiveGrant) :
    matcher.grantMatches grant req = true ↔ matcher.Satisfied grant req := by
  obtain ⟨resource, scope, detailType, action, client⟩ := matcher
  constructor
  · intro h
    simp only [grantMatches, Bool.and_eq_true, Option.all_eq_true, decide_eq_true_eq] at h
    obtain ⟨⟨⟨hcli, hres⟩, hsc⟩, hdet⟩ := h
    refine ⟨hcli, fun raw hraw => hres _ hraw, fun hthe => hres _ hthe, hsc, ?_⟩
    cases detailType <;> cases action <;> simp_all
  · rintro ⟨hcli, hlit, hthe, hsc, hdet⟩
    simp only [grantMatches, Bool.and_eq_true, Option.all_eq_true, decide_eq_true_eq]
    refine ⟨⟨⟨hcli, ?_⟩, hsc⟩, ?_⟩
    · rintro (raw | _) hres
      · exact hlit raw hres
      · exact hthe hres
    · cases detailType <;> cases action <;> simp_all

/-- The engine reads conditions by the standard semantics. -/
theorem standard_holds (req : EvaluationRequest) :
    Standard req fun c => c.holds req = true where
  all children := by simp [holds]
  any children := by simp [holds]
  not child := by simp [holds]
  attr source name test := by
    simp [holds, Option.any_eq_true, AttributeTest.compare_iff]
  group name := by simp [holds]
  role owner name := by simp [holds]
  grant matcher := by
    simp [holds, GrantMatch.grantMatches_iff]
  acrAtLeast required := by simp [holds]
  trusted predicate := by
    simp [holds, Option.any_eq_true]

variable {V : Condition → Prop} {rules : List Rule}

/-- There is no other standard reading. -/
theorem Standard.iff_holds (hV : Standard req V) (c : Condition) : V c ↔ c.holds req = true := by
  have hhl := standard_holds req
  induction c using tree_induction with
  | node c ih =>
    cases c with
    | all =>
      rw [hV.all, hhl.all]
      exact forall₂_congr ih
    | any =>
      rw [hV.any, hhl.any]
      exact exists_congr fun child => and_congr_right (ih child)
    | not child =>
      rw [hV.not, hhl.not]
      exact not_congr (ih child List.mem_cons_self)
    | attr => rw [hV.attr, hhl.attr]
    | group => rw [hV.group, hhl.group]
    | role => rw [hV.role, hhl.role]
    | grant => rw [hV.grant, hhl.grant]
    | acrAtLeast => rw [hV.acrAtLeast, hhl.acrAtLeast]
    | trusted => rw [hV.trusted, hhl.trusted]

/-- The selectors of a rule apply, and its condition is true under a reading. -/
structure Rule.Matches (request : EvaluationRequest) (V : Condition → Prop) (rule : Rule) : Prop
    where
  subject : ∀ kind ∈ rule.subjectType, kind = request.subject.kind
  resource : ∀ kind ∈ rule.resourceType, kind = request.resource.kind
  action : rule.actions = ∅ ∨ request.action.name ∈ rule.actions
  condition : ∀ c ∈ rule.when, V c

theorem Standard.matches_iff (hV : Standard req V) (rule : Rule) :
    rule.Matches req V ↔ rule.matchesRequest req = true := by
  rw [ConditionalScope.matchesRequest_eq]
  simp only [ConditionalScope.selects, Bool.and_eq_true, Option.all_eq_true, decide_eq_true_eq,
    Bool.or_eq_true]
  constructor
  · rintro ⟨hsj, hres, hact, hcd⟩
    exact ⟨⟨⟨hsj, hres⟩, hact⟩, fun c hc => (hV.iff_holds c).1 (hcd c hc)⟩
  · rintro ⟨⟨⟨hsj, hres⟩, hact⟩, hcd⟩
    exact ⟨hsj, hres, hact, fun c hc => (hV.iff_holds c).2 (hcd c hc)⟩

/-! ### The reference decision -/

/-- The rule is the first one of a list with a property. -/
def IsFirst (P : Rule → Prop) (rules : List Rule) (rule : Rule) : Prop :=
  ∃ before after, rules = before ++ rule :: after ∧ P rule ∧ ∀ earlier ∈ before, ¬P earlier

/-- The decision under which a matching `deny` overrides every `permit`. -/
inductive IsReference (matches_ : Rule → Prop) (rules : List Rule) : Decision → Prop
  | deny {rule : Rule} : IsFirst (fun r => r.effect = .deny ∧ matches_ r) rules rule →
    IsReference matches_ rules (.fromRule rule)
  | permit {rule : Rule} : (∀ r ∈ rules, r.effect = .deny → ¬matches_ r) →
    IsFirst (fun r => r.effect = .permit ∧ matches_ r) rules rule →
    IsReference matches_ rules (.fromRule rule)
  | default : (∀ r ∈ rules, ¬matches_ r) →
    IsReference matches_ rules (.defaultDeny "no rule of this tenant's policy matched the request")

theorem isFirst_of_find? {p : Rule → Bool} {P : Rule → Prop} (hp : ∀ rule, p rule = true ↔ P rule)
    {rule : Rule} (h : rules.find? p = some rule) : IsFirst P rules rule := by
  obtain ⟨hrl, before, after, hrul, hbef⟩ := List.find?_eq_some_iff_append.1 h
  refine ⟨before, after, hrul, (hp rule).1 hrl, fun earlier hea hP => ?_⟩
  have hnot := hbef earlier hea
  rw [(hp earlier).2 hP] at hnot
  exact absurd hnot (by decide)

/-- The engine takes the reference decision. -/
theorem evaluate_isReference (hV : Standard req V) (rules : RuleSet) :
    IsReference (Rule.Matches req V) rules.rules (rules.evaluate req) := by
  rw [RuleSet.evaluate_eq, RuleSet.deciding]
  have hp : ∀ (effect : Effect) (rule : Rule),
      (rule.matchesRequest req && rule.effect = effect) = true ↔
        rule.effect = effect ∧ rule.Matches req V := by
    intro _ rule
    rw [Bool.and_eq_true, decide_eq_true_eq, hV.matches_iff, and_comm]
  cases hde : rules.rules.find? fun rule =>
      rule.matchesRequest req && rule.effect = .deny with
  | some rule => exact .deny (isFirst_of_find? (hp .deny) hde)
  | none =>
    have hnod : ∀ r ∈ rules.rules, r.effect = .deny → ¬r.Matches req V := by
      intro r hr heff hmat
      exact List.find?_eq_none.1 hde r hr ((hp .deny r).2 ⟨heff, hmat⟩)
    cases hpm : rules.rules.find? fun rule =>
        rule.matchesRequest req && rule.effect = .permit with
    | some rule => exact .permit hnod (isFirst_of_find? (hp .permit) hpm)
    | none =>
      refine .default fun r hr hmat => ?_
      cases heff : r.effect with
      | deny => exact hnod r hr heff hmat
      | permit => exact List.find?_eq_none.1 hpm r hr ((hp .permit r).2 ⟨heff, hmat⟩)

/-! ### The outcome -/

theorem IsFirst.mem {P : Rule → Prop} {rule : Rule} (h : IsFirst P rules rule) :
    rule ∈ rules ∧ P rule := by
  obtain ⟨_, _, rfl, hP, -⟩ := h
  exact ⟨List.mem_append_right _ List.mem_cons_self, hP⟩

/-- The reference permits when some `permit` matches and no `deny` does. -/
theorem IsReference.permit_iff {matches_ : Rule → Prop} {d : Decision}
    (h : IsReference matches_ rules d) : d.permit = true ↔
      (∃ r ∈ rules, r.effect = .permit ∧ matches_ r) ∧
        ∀ r ∈ rules, r.effect = .deny → ¬matches_ r := by
  cases h with
  | @deny rule hfst =>
    obtain ⟨hmem, heff, hmat⟩ := hfst.mem
    constructor
    · intro hpm
      simp [Decision.fromRule, heff] at hpm
    · rintro ⟨_, hnod⟩
      exact absurd hmat (hnod rule hmem heff)
  | @permit rule hnod hfst =>
    obtain ⟨hmem, heff, hmat⟩ := hfst.mem
    exact ⟨fun _ => ⟨⟨rule, hmem, heff, hmat⟩, hnod⟩,
      fun _ => by simp [Decision.fromRule, heff]⟩
  | default hno =>
    constructor
    · intro hpm
      simp [Decision.defaultDeny] at hpm
    · rintro ⟨⟨r, hr, _, hmat⟩, _⟩
      exact absurd hmat (hno r hr)

theorem evaluate_permit_iff (rules : List Rule) (req : EvaluationRequest) :
    ((RuleSet.mk rules).evaluate req).permit = true ↔
      (∃ r ∈ rules, r.effect = .permit ∧ r.matchesRequest req = true) ∧
        ∀ r ∈ rules, r.effect = .deny → r.matchesRequest req = false := by
  have hV := standard_holds req
  rw [(evaluate_isReference hV ⟨rules⟩).permit_iff]
  simp [hV.matches_iff]

/-- Evaluation is the deny-overrides reference under the standard semantics; the outcome is the
same for every order of the rules, another `deny` never permits what was denied, and another
`permit` never denies what was permitted. -/
theorem evaluate_deny_overrides (rules : RuleSet) (request : EvaluationRequest) :
    (∀ V, Standard request V →
      IsReference (Rule.Matches request V) rules.rules (rules.evaluate request)) ∧
    (∀ rules' : List Rule, rules'.Perm rules.rules →
      ((RuleSet.mk rules').evaluate request).permit = (rules.evaluate request).permit) ∧
    ∀ (before after : List Rule) (rule : Rule), rules.rules = before ++ after →
      (rule.effect = .deny → (rules.evaluate request).permit = false →
        ((RuleSet.mk (before ++ rule :: after)).evaluate request).permit = false) ∧
      (rule.effect = .permit → (rules.evaluate request).permit = true →
        ((RuleSet.mk (before ++ rule :: after)).evaluate request).permit = true) := by
  refine ⟨fun V hV => evaluate_isReference hV rules, ?_, ?_⟩
  · intro _ hpm
    rw [Bool.eq_iff_iff, evaluate_permit_iff, evaluate_permit_iff]
    simp [hpm.mem_iff]
  · intro before after rule hrul
    have hmem : ∀ r, r ∈ before ++ rule :: after ↔ r = rule ∨ r ∈ rules.rules := by
      intro r
      rw [hrul, List.mem_append, List.mem_cons, List.mem_append]
      exact or_left_comm
    constructor
    · intro heff hden
      by_contra hpermit
      rw [Bool.not_eq_false, evaluate_permit_iff] at hpermit
      obtain ⟨⟨r, hr, hre, hmat⟩, hnod⟩ := hpermit
      -- the rule that permits is an old one, since the new one denies
      have hold : r ∈ rules.rules := by
        rcases (hmem r).1 hr with rfl | hold
        · exact absurd (heff.symm.trans hre) (by decide)
        · exact hold
      have hper : (rules.evaluate request).permit = true :=
        (evaluate_permit_iff rules.rules request).2 ⟨⟨r, hold, hre, hmat⟩,
          fun r' hr' => hnod r' ((hmem r').2 (.inr hr'))⟩
      cases hden.symm.trans hper
    · intro heff hper
      obtain ⟨⟨r, hr, hre, hmat⟩, hnod⟩ :=
        (evaluate_permit_iff rules.rules request).1 hper
      refine (evaluate_permit_iff _ request).2 ⟨⟨r, (hmem r).2 (.inr hr), hre, hmat⟩, ?_⟩
      intro r' hr' hde
      rcases (hmem r').1 hr' with rfl | hold
      · exact absurd (heff.symm.trans hde) (by decide)
      · exact hnod r' hold hde

/-- A `permit` for everyone and a `deny` for whoever comes from the office. -/
def outsideRules : List Rule :=
  [{ id := "p", effect := .permit, subjectType := none, resourceType := none, actions := ∅,
     when := none, reasonAdmin := none, reasonUser := none, acrValues := [] },
   { id := "d", effect := .deny, subjectType := none, resourceType := none,
     actions := {"authorize"}, when := some (.not (.not (.trusted (.networkZone "office")))),
     reasonAdmin := none, reasonUser := none, acrValues := [] }]

theorem evaluate_deny_overrides_outsideRules :
    let req := ConditionalScope.requestWith (ConditionalScope.zoneFacts (some {"office"}) none)
    IsReference (Rule.Matches req fun c => c.holds req = true) outsideRules
        ((RuleSet.mk outsideRules).evaluate req) ∧
      ((RuleSet.mk outsideRules.reverse).evaluate req).permit = false := by
  intro req
  obtain ⟨href, hpm, -⟩ := evaluate_deny_overrides ⟨outsideRules⟩ req
  refine ⟨href _ (standard_holds req), ?_⟩
  decide

end AsteriusIdp.Policy
