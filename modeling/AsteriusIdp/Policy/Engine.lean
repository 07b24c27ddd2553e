import AsteriusIdp.Policy.Request

/-!
# Rules and the decision over them

A rule selects requests by subject type, resource type and action, and may ask for a condition: a
tree of `all`, `any` and `not` over tests of the request.  Every rule is considered: the first
matching `deny` decides, then the first matching `permit`, and a request that matches nothing is
denied.
-/

namespace AsteriusIdp.Policy

/-! ### Conditions -/

/-- A predicate over the snapshot of trusted facts. -/
inductive TrustedPredicate where
  | sensitivity (expected : String)
  | networkZone (expected : String)
  | authenticationAgeAtMost (limit : UInt32)
  | deviceCompliance (expected : String)
  deriving DecidableEq

/-- The fact a predicate reads. -/
def TrustedPredicate.fact : TrustedPredicate → FactName
  | .sensitivity _ => .applicationSensitivity
  | .networkZone _ => .networkZone
  | .authenticationAgeAtMost _ => .authenticationAge
  | .deviceCompliance _ => .deviceCompliance

/-- The fact is as expected. -/
def TrustedPredicate.holds (predicate : TrustedPredicate) (trusted : TrustedAccessContext) :
    Bool :=
  match predicate, trusted.value predicate.fact with
  | .sensitivity expected, some (.text actual) => expected = actual
  | .deviceCompliance expected, some (.text actual) => expected = actual
  | .networkZone expected, some (.names names) => expected ∈ names
  | .authenticationAgeAtMost limit, some (.authenticationTime authenticated) =>
    0 ≤ trusted.evaluatedAt - authenticated ∧
    trusted.evaluatedAt - authenticated ≤ seconds limit.toNat
  | _, _ => false

/-- The bag of properties an attribute is read from. -/
inductive Source where
  | subject
  | resource
  | action
  | context
  deriving DecidableEq

/-- What an attribute is compared with. -/
inductive AttributeTest where
  | equals (expected : Json)
  | in_ (expected : List Json)

/-- The resource a grant has to name. -/
inductive GrantResource where
  | literal (raw : String)
  | theResource
  deriving DecidableEq

/-- What a live grant has to carry. -/
structure GrantMatch where
  resource : Option GrantResource
  scope : Option String
  detailType : Option String
  action : Option String
  client : Option String

/-- A condition over a request. -/
inductive Condition where
  | all (children : List Condition)
  | any (children : List Condition)
  | not (child : Condition)
  | attr (source : Source) (name : String) (test : AttributeTest)
  | group (name : String)
  | role (owner : Option RoleOwner) (name : String)
  | grant (matcher : GrantMatch)
  | acrAtLeast (required : String)
  | trusted (predicate : TrustedPredicate)

/-- The attributes of a source. -/
def Source.properties (request : EvaluationRequest) : Source → Object
  | .subject => request.subject.properties
  | .resource => request.resource.properties
  | .action => request.action.properties
  | .context => request.context.properties

/-- An array passes a membership test if one of its items does. -/
def AttributeTest.compare (value : Json) : AttributeTest → Bool
  | .equals expected => value = expected
  | .in_ expected => match value with
    | .arr items => items.any (expected.contains ·)
    | scalar => expected.contains scalar

/-- One grant carries everything the matcher names; a detail's type and action have to be found
on one element. -/
def GrantMatch.grantMatches (matcher : GrantMatch) (grant : ActiveGrant)
    (request : EvaluationRequest) : Bool :=
  matcher.client.all (grant.client = ·) &&
  matcher.resource.all (fun resource =>
    (match resource with
      | .literal raw => raw
      | .theResource => request.resource.id) ∈ grant.resources) &&
  matcher.scope.all (· ∈ grant.scopes) &&
  match matcher.detailType, matcher.action with
  | none, none => true
  | some detailType, none => grant.details.any (·.detailType = detailType)
  | none, some action => grant.details.any (action ∈ ·.actions)
  | some detailType, some action =>
    grant.details.any fun detail => detail.detailType = detailType ∧ action ∈ detail.actions

namespace Condition

mutual

/-- The truth of a condition. -/
def holds (request : EvaluationRequest) : Condition → Bool
  | .all children => holdsAll request children
  | .any children => holdsAny request children
  | .not child => !holds request child
  | .attr source name test =>
    ((source.properties request).lookup name).any (test.compare ·)
  | .group name => name ∈ request.subject.groups
  | .role owner name => request.subject.holdsRole owner name
  | .grant matcher => request.subject.grants.any (matcher.grantMatches · request)
  | .acrAtLeast required => request.context.acrAtLeast required
  | .trusted predicate => request.context.trusted.any predicate.holds

/-- Each holds. -/
def holdsAll (request : EvaluationRequest) : List Condition → Bool
  | [] => true
  | child :: children => holds request child && holdsAll request children

/-- One holds. -/
def holdsAny (request : EvaluationRequest) : List Condition → Bool
  | [] => false
  | child :: children => holds request child || holdsAny request children

end

@[simp]
theorem holdsAll_eq (req : EvaluationRequest) (cs : List Condition) :
    holdsAll req cs = cs.all (holds req) := by
  induction cs with
  | nil => simp [holdsAll]
  | cons child cs ih => simp [holdsAll, ih]

@[simp]
theorem holdsAny_eq (req : EvaluationRequest) (cs : List Condition) :
    holdsAny req cs = cs.any (holds req) := by
  induction cs with
  | nil => simp [holdsAny]
  | cons child cs ih => simp [holdsAny, ih]

/-- A condition that is not a combination of others. -/
def IsLeaf : Condition → Prop
  | .all _ | .any _ | .not _ => False
  | _ => True

/-- What a combination is made of. -/
def children : Condition → List Condition
  | .all children | .any children => children
  | .not child => [child]
  | _ => []

theorem IsLeaf.children_eq {c : Condition} (h : c.IsLeaf) : c.children = [] := by
  cases c <;> first | exact h.elim | rfl

/-- Induction over the tree of a condition. -/
@[elab_as_elim]
theorem tree_induction {P : Condition → Prop}
    (node : ∀ c : Condition, (∀ child ∈ c.children, P child) → P c) (c : Condition) : P c :=
  @Condition.rec P (fun cs => ∀ c ∈ cs, P c) (fun _ ih => node (.all _) ih)
    (fun _ ih => node (.any _) ih) (fun _ ih => node (.not _) (List.forall_mem_singleton.2 ih))
    (fun _ _ _ => node _ nofun)
    (fun _ => node _ nofun) (fun _ _ => node _ nofun) (fun _ => node _ nofun)
    (fun _ => node _ nofun) (fun _ => node _ nofun) nofun
    (fun _ _ head tail => List.forall_mem_cons.2 ⟨head, tail⟩) c

mutual

/-- The condition and what it is made of, depth first and in the order of the document. -/
def nodes : Condition → List Condition
  | .all children => .all children :: nodesAll children
  | .any children => .any children :: nodesAll children
  | .not child => .not child :: nodes child
  | c => [c]

/-- The nodes of a list. -/
def nodesAll : List Condition → List Condition
  | [] => []
  | child :: children => nodes child ++ nodesAll children

end

@[simp]
theorem nodesAll_eq (cs : List Condition) : nodesAll cs = cs.flatMap nodes := by
  induction cs with
  | nil => simp [nodesAll]
  | cons child cs ih => simp [nodesAll, ih]

theorem nodes_eq (c : Condition) : c.nodes = c :: c.children.flatMap nodes := by
  cases c <;> simp [nodes, children]

theorem mem_nodes_of_child {c child node : Condition} (hkid : child ∈ c.children)
    (h : node ∈ child.nodes) : node ∈ c.nodes := by
  rw [nodes_eq]
  exact List.mem_cons_of_mem _ (List.mem_flatMap.2 ⟨child, hkid, h⟩)

/-- A condition holds of two requests alike when each of its leaves does. -/
theorem holds_congr {r₁ r₂ : EvaluationRequest} (c : Condition)
    (h : ∀ node ∈ c.nodes, node.IsLeaf → node.holds r₁ = node.holds r₂) :
    c.holds r₁ = c.holds r₂ := by
  induction c using tree_induction with
  | node c ih =>
    have hkid : ∀ child ∈ c.children, child.holds r₁ = child.holds r₂ := fun child hkid =>
      ih child hkid fun node hnd => h node (mem_nodes_of_child hkid hnd)
    cases c with
    | all =>
      rw [holds, holds, holdsAll_eq, holdsAll_eq, Bool.eq_iff_iff, List.all_eq_true,
        List.all_eq_true]
      exact forall₂_congr fun c hc => by rw [hkid c hc]
    | any =>
      rw [holds, holds, holdsAny_eq, holdsAny_eq, Bool.eq_iff_iff, List.any_eq_true,
        List.any_eq_true]
      exact exists_congr fun c => and_congr_right fun hc => by rw [hkid c hc]
    | not child => rw [holds, holds, hkid child List.mem_cons_self]
    | _ => exact h _ (by simp [nodes]) trivial

end Condition

/-! ### Rules -/

/-- What a rule does. -/
inductive Effect where
  | permit
  | deny
  deriving DecidableEq

/-- One rule of a document. -/
structure Rule where
  id : String
  effect : Effect
  subjectType : Option String
  resourceType : Option String
  /-- Empty for every action. -/
  actions : Finset String
  when : Option Condition
  reasonAdmin : Option String
  reasonUser : Option String
  acrValues : List String

/-- The rules of a document, in its order. -/
structure RuleSet where
  rules : List Rule

/-- The selectors of a rule apply and its condition, if any, holds. -/
def Rule.matchesRequest (rule : Rule) (request : EvaluationRequest) : Bool :=
  if rule.subjectType.any (· ≠ request.subject.kind) then false
  else if rule.resourceType.any (· ≠ request.resource.kind) then false
  else if rule.actions ≠ ∅ ∧ request.action.name ∉ rule.actions then false
  else rule.when.all (·.holds request)

/-! ### Decisions -/

/-- What a decision says beyond yes or no. -/
structure DecisionContext where
  rule : Option String
  reasonAdmin : Option String
  reasonUser : Option String
  acrValues : List String
  deriving DecidableEq

/-- The answer of the engine. -/
structure Decision where
  permit : Bool
  context : DecisionContext
  deriving DecidableEq

/-- No rule permits. -/
def Decision.defaultDeny (reasonAdmin : String) : Decision :=
  { permit := false
    context := { rule := none, reasonAdmin := some reasonAdmin, reasonUser := none,
                 acrValues := [] } }

/-- The rule decides. -/
def Decision.fromRule (rule : Rule) : Decision :=
  { permit := rule.effect = .permit
    context := { rule := some rule.id, reasonAdmin := rule.reasonAdmin,
                 reasonUser := rule.reasonUser, acrValues := rule.acrValues } }

namespace RuleSet

/-- The loop over the rules, with the first matching `permit` seen so far. -/
def evaluateFrom (request : EvaluationRequest) : Option Rule → List Rule → Decision
  | permit, [] => match permit with
    | some rule => .fromRule rule
    | none => .defaultDeny "no rule of this tenant's policy matched the request"
  | permit, rule :: rest =>
    if !rule.matchesRequest request then evaluateFrom request permit rest
    else match rule.effect with
      | .deny => .fromRule rule
      | .permit => evaluateFrom request (permit.or (some rule)) rest

/-- Decide a request. -/
def evaluate (rules : RuleSet) (request : EvaluationRequest) : Decision :=
  evaluateFrom request none rules.rules

/-- The loop reads a request only through the rules that match it. -/
theorem evaluateFrom_congr {r₁ r₂ : EvaluationRequest} {rules : List Rule}
    (h : ∀ rule ∈ rules, rule.matchesRequest r₁ = rule.matchesRequest r₂) (permit : Option Rule) :
    evaluateFrom r₁ permit rules = evaluateFrom r₂ permit rules := by
  induction rules generalizing permit with
  | nil => rfl
  | cons rule rest ih =>
    have hrs := fun permit => ih (fun rule' hmem => h rule' (List.mem_cons_of_mem _ hmem)) permit
    simp [evaluateFrom, h rule List.mem_cons_self, hrs]

theorem evaluate_congr {r₁ r₂ : EvaluationRequest} {rules : RuleSet}
    (h : ∀ rule ∈ rules.rules, rule.matchesRequest r₁ = rule.matchesRequest r₂) :
    rules.evaluate r₁ = rules.evaluate r₂ :=
  evaluateFrom_congr h none

end RuleSet

end AsteriusIdp.Policy
