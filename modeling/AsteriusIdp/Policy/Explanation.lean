import AsteriusIdp.Lib.Recorder
import AsteriusIdp.Policy.Document

/-!
# Explaining a decision

An administrator can ask for the outcome of every rule and of the conditions of the rules that
apply.  The conditions are traced in a second walk over the policy, with one budget for all rules.

* `trace_eq` : a trace records the nodes of a condition depth first, while the budget lasts.
* `RuleSet.evaluateFrom_eq` : the loop of the engine returns the first matching `deny`, then the
  first matching `permit`.
* `explain_agrees` : the explained rules give the decision of the engine, and the traces are the
  first 256 nodes of the rules that apply.
-/

namespace AsteriusIdp.Policy

open Recorder

/-! ### Explanations -/

/-- A policy as it is loaded. -/
structure StoredPolicy (ν : Type) where
  rules : Document ν
  updatedAt : ℤ

/-- The outcome of one node of a condition. -/
structure ConditionExplanation where
  path : String
  kind : String
  matched : Bool
  /-- The request does not have what the node tests. -/
  missing : Bool
  deriving DecidableEq

/-- What is said of a rule. -/
structure RuleExplanation where
  id : String
  effect : String
  applicable : Bool
  matched : Bool
  conditions : List ConditionExplanation
  deriving DecidableEq

/-- What is said of a decision. -/
structure DecisionExplanation where
  policyRevision : Option String
  policyUpdatedAt : Option String
  enforcementPoint : String
  rules : List RuleExplanation
  truncated : Bool
  deriving DecidableEq

/-- Nodes of a trace. -/
def maxTraceNodes : ℕ := 256

/-! ### Traces -/

/-- The name of the kind. -/
def Condition.kind : Condition → String
  | .all _ => "all"
  | .any _ => "any"
  | .not _ => "not"
  | .attr .. => "attribute"
  | .trusted _ => "trusted_fact"
  | .group _ => "group"
  | .role .. => "role"
  | .grant _ => "grant"
  | .acrAtLeast _ => "acr_at_least"

/-- What it asks for is absent. -/
def Condition.missing (request : EvaluationRequest) : Condition → Bool
  | .attr source name _ => ((source.properties request).lookup name).isNone
  | .trusted predicate =>
    request.context.trusted.all (·.availability predicate.fact ≠ .known)
  | .acrAtLeast required =>
    request.context.acr.all (· ∉ request.context.ladder) || required ∉ request.context.ladder
  | _ => false

/-- What is recorded for a node. -/
def explainNode (request : EvaluationRequest) (path : String) (c : Condition) :
    ConditionExplanation :=
  { path, kind := c.kind, matched := c.holds request, missing := c.missing request }

mutual

/-- Record a condition and then its children.  Nothing below a node that is left out is visited. -/
def trace (request : EvaluationRequest) (path : String) (c : Condition)
    (r : Recorder ConditionExplanation) : Recorder ConditionExplanation :=
  if r.remaining = 0 then { r with truncated := true }
  else
    let r := { r with
      out := r.out ++ [explainNode request path c]
      remaining := r.remaining - 1 }
    match c with
    | .all children => traceAll request path 0 children r
    | .any children => traceAll request path 0 children r
    | .not child => trace request (path ++ ".0") child r
    | _ => r

/-- Trace children. -/
def traceAll (request : EvaluationRequest) (path : String) (index : ℕ) (children : List Condition)
    (r : Recorder ConditionExplanation) : Recorder ConditionExplanation :=
  match children with
  | [] => r
  | child :: children =>
    traceAll request path (index + 1) children
      (trace request (path ++ "." ++ toString index) child r)

end

/-- The selectors of a rule apply to the request. -/
def Rule.applicable (rule : Rule) (request : EvaluationRequest) : Bool :=
  rule.subjectType.all (· = request.subject.kind) &&
    rule.resourceType.all (· = request.resource.kind) &&
      (rule.actions = ∅ || request.action.name ∈ rule.actions)

/-- The loop over the rules, with what is left of the budget. -/
def explainRules (request : EvaluationRequest) :
    List Rule → ℕ → Bool → List RuleExplanation × Bool
  | [], _, truncated => ([], truncated)
  | rule :: rest, remaining, truncated =>
    let applicable := rule.applicable request
    let start : Recorder ConditionExplanation := ⟨[], remaining, truncated⟩
    let traced := match applicable, rule.when with
      | true, some condition => trace request "when" condition start
      | _, _ => start
    let (explained, truncated) := explainRules request rest traced.remaining traced.truncated
    ({ id := rule.id, effect := rule.effect.asStr, applicable,
       matched := rule.matchesRequest request, conditions := traced.out } :: explained, truncated)

section Explain

variable {ν : Type} (revision : Document ν → String)

/-- The explanation of a request under the policy of a tenant, if it has one. -/
def explain (policy : Option (StoredPolicy ν)) (request : EvaluationRequest)
    (enforcementPoint : String) : DecisionExplanation :=
  match policy with
  | none => { policyRevision := none, policyUpdatedAt := none, enforcementPoint, rules := [],
              truncated := false }
  | some policy =>
    let (rules, truncated) := explainRules request policy.rules.rules maxTraceNodes false
    { policyRevision := some (revision policy.rules)
      policyUpdatedAt := some (toString policy.updatedAt)
      enforcementPoint, rules, truncated }

end Explain

/-! ### Nodes in the order of the document -/

namespace Condition

mutual

/-- The nodes of a condition with their paths, depth first and in the order of the document. -/
def walk (path : String) : Condition → List (String × Condition)
  | .all children => (path, .all children) :: walkAll path 0 children
  | .any children => (path, .any children) :: walkAll path 0 children
  | .not child => (path, .not child) :: walk (path ++ ".0") child
  | c => [(path, c)]

/-- The nodes of children. -/
def walkAll (path : String) (index : ℕ) : List Condition → List (String × Condition)
  | [] => []
  | child :: children =>
    walk (path ++ "." ++ toString index) child ++ walkAll path (index + 1) children

end

theorem map_snd_walkAll {cs : List Condition}
    (h : ∀ c ∈ cs, ∀ path, (walk path c).map Prod.snd = c.nodes) (path : String)
    (index : ℕ) : (walkAll path index cs).map Prod.snd = cs.flatMap nodes := by
  induction cs generalizing index with
  | nil => simp [walkAll]
  | cons child cs ih =>
    rw [List.forall_mem_cons] at h
    rw [walkAll, List.map_append, h.1, ih h.2, List.flatMap_cons]

/-- The walk visits the nodes of the condition. -/
theorem map_snd_walk (c : Condition) (path : String) : (walk path c).map Prod.snd = c.nodes := by
  induction c using tree_induction generalizing path with
  | node c ih =>
    rw [nodes_eq]
    cases c with
    | all cs | any cs => rw [walk, List.map_cons, @map_snd_walkAll cs ih, children]
    | not child => simp [walk, ih child List.mem_cons_self, children]
    | _ => simp [walk, children]

end Condition

section Trace

variable {req : EvaluationRequest}

/-- What a full budget records for a condition. -/
def Condition.explained (request : EvaluationRequest) (path : String) (c : Condition) :
    List ConditionExplanation :=
  (c.walk path).map fun node => explainNode request node.1 node.2

/-- Recording a node and going on below it is the same whether or not the walk stops when the
budget is spent. -/
theorem pushAll_visit {node : ConditionExplanation} {below : List ConditionExplanation}
    (r : Recorder ConditionExplanation) :
    r.pushAll (node :: below) =
      if r.remaining = 0 then { r with truncated := true }
      else pushAll
        { r with out := r.out ++ [node], remaining := r.remaining - 1 } below := by
  split_ifs with hsp
  · simp [pushAll_eq, hsp]
  · rw [pushAll_cons, push, if_neg hsp]

theorem traceAll_eq {cs : List Condition}
    (h : ∀ c ∈ cs, ∀ path r, trace req path c r = r.pushAll (c.explained req path))
    (path : String) (index : ℕ) (r : Recorder ConditionExplanation) :
    traceAll req path index cs r =
      r.pushAll ((Condition.walkAll path index cs).map
        fun node => explainNode req node.1 node.2) := by
  induction cs generalizing index r with
  | nil => simp [traceAll, Condition.walkAll]
  | cons child cs ih =>
    rw [List.forall_mem_cons] at h
    rw [traceAll, ih h.2, h.1, Condition.walkAll, List.map_append, pushAll_append,
      Condition.explained]

/-- **Traces.**  Tracing a condition records its nodes one after the other. -/
theorem trace_eq (c : Condition) (path : String) (r : Recorder ConditionExplanation) :
    trace req path c r = r.pushAll (c.explained req path) := by
  induction c using Condition.tree_induction generalizing path r with
  | node c ih =>
    rw [Condition.explained]
    cases c with
    | all cs | any cs =>
      rw [Condition.walk, List.map_cons, pushAll_visit, trace]
      simp [@traceAll_eq req cs ih]
    | not child =>
      rw [Condition.walk, List.map_cons, pushAll_visit, trace]
      simp [ih child List.mem_cons_self, Condition.explained]
    | _ => simp [trace, Condition.walk, push]

/-- The nodes of a rule that are to be traced. -/
def Rule.tracedNodes (rule : Rule) (request : EvaluationRequest) : List Condition :=
  if rule.applicable request then rule.when.elim [] Condition.nodes else []

/-- What a full budget records for a rule. -/
def Rule.explained (rule : Rule) (request : EvaluationRequest) : List ConditionExplanation :=
  if rule.applicable request then rule.when.elim [] (·.explained request "when") else []

/-- Every node is recorded with its truth under the engine. -/
theorem Rule.map_matched_explained (rule : Rule) :
    (rule.explained req).map (·.matched) =
      (rule.tracedNodes req).map (Condition.holds req) := by
  unfold Rule.explained Rule.tracedNodes
  split_ifs
  · cases rule.when with
    | none => rfl
    | some c =>
      simp only [Option.elim_some, ← c.map_snd_walk "when", Condition.explained, List.map_map]
      rfl
  · rfl

theorem Rule.length_explained (rule : Rule) :
    (rule.explained req).length = (rule.tracedNodes req).length := by
  simpa using congrArg List.length (rule.map_matched_explained)

/-- The head of an explained rule is about the rule alone. -/
def Rule.explanation (request : EvaluationRequest) (rule : Rule)
    (conditions : List ConditionExplanation) : RuleExplanation :=
  { id := rule.id, effect := rule.effect.asStr, applicable := rule.applicable request,
    matched := rule.matchesRequest request, conditions }

/-- One turn of the loop records what it can of the nodes of the rule. -/
theorem explainRules_cons (rule : Rule) (rest : List Rule) (remaining : ℕ) (truncated : Bool) :
    explainRules req (rule :: rest) remaining truncated = let nodes := rule.explained req
      let after := explainRules req rest (remaining - nodes.length)
        (truncated || decide (remaining < nodes.length))
      (rule.explanation req (nodes.take remaining) :: after.1, after.2) := by
  have htr : (match rule.applicable req, rule.when with
      | true, some condition => trace req "when" condition ⟨[], remaining, truncated⟩
      | _, _ => ⟨[], remaining, truncated⟩) =
      pushAll ⟨[], remaining, truncated⟩ (rule.explained req) := by
    unfold Rule.explained
    cases rule.applicable req with
    | false => rfl
    | true =>
      cases rule.when with
      | none => rfl
      | some c => exact trace_eq c _ _
  simp [explainRules, htr, pushAll_eq, Rule.explanation]

/-- The loop gives each rule its share of the budget. -/
theorem explainRules_eq (rules : List Rule) (remaining : ℕ) (truncated : Bool) :
    explainRules req rules remaining truncated =
      (List.zipWith (Rule.explanation req) rules
          (cut remaining (rules.map (·.explained req))),
        truncated || decide (remaining < (rules.flatMap (·.tracedNodes req)).length)) := by
  induction rules generalizing remaining truncated with
  | nil => simp [explainRules]
  | cons rule rest ih =>
    rw [explainRules_cons]
    simp only [ih, List.map_cons, cut, List.zipWith_cons_cons, List.flatMap_cons,
      List.length_append, Rule.length_explained, Prod.mk.injEq, true_and, Bool.or_assoc]
    congr 1
    rw [Bool.eq_iff_iff]
    simp only [Bool.or_eq_true, decide_eq_true_eq]
    omega

end Trace

/-! ### The decision -/

section Decision

variable {req : EvaluationRequest}

/-- A rule that matches applies. -/
theorem Rule.applicable_of_matches {rule : Rule} (h : rule.matchesRequest req = true) :
    rule.applicable req = true := by
  unfold Rule.matchesRequest at h
  split_ifs at h with hsj hres hac
  simp only [Option.any_eq_true, decide_eq_true_eq, not_exists, not_and, not_not] at hsj
  simp only [Option.any_eq_true, decide_eq_true_eq, not_exists, not_and, not_not] at hres
  simp only [Rule.applicable, Bool.and_eq_true, Option.all_eq_true, decide_eq_true_eq,
    Bool.or_eq_true]
  exact ⟨⟨hsj, hres⟩, by tauto⟩

/-- The rule that decides: the first matching `deny`, else the first matching `permit`. -/
def RuleSet.deciding (request : EvaluationRequest) (rules : List Rule) : Option Rule :=
  (rules.find? fun rule => rule.matchesRequest request && rule.effect = .deny).or
    (rules.find? fun rule => rule.matchesRequest request && rule.effect = .permit)

theorem RuleSet.evaluateFrom_eq (permit : Option Rule) (rules : List Rule) :
    evaluateFrom req permit rules =
      ((rules.find? fun rule => rule.matchesRequest req && rule.effect = .deny).or
        (permit.or
          (rules.find? fun rule => rule.matchesRequest req && rule.effect = .permit))).elim
        (.defaultDeny "no rule of this tenant's policy matched the request") .fromRule := by
  induction rules generalizing permit with
  | nil => cases permit <;> rfl
  | cons rule rest ih =>
    by_cases hmat : rule.matchesRequest req = true
    · cases heff : rule.effect with
      | deny => simp [evaluateFrom, hmat, heff]
      | permit => simp [evaluateFrom, hmat, heff, ih]
    · simp [evaluateFrom, hmat, ih]

theorem RuleSet.evaluate_eq (rules : RuleSet) :
    rules.evaluate req = (deciding req rules.rules).elim
      (.defaultDeny "no rule of this tenant's policy matched the request") .fromRule := by
  rw [evaluate, evaluateFrom_eq, Option.none_or, deciding]

/-- Deny overrides, read off the explained rules. -/
def decidingExplanation (rules : List RuleExplanation) : Option RuleExplanation :=
  (rules.find? fun rule => rule.matched && rule.effect = "deny").or
    (rules.find? fun rule => rule.matched && rule.effect = "permit")

/-- Looking for an explained rule finds the explanation of the rule that is looked for. -/
theorem find?_explanation {p : RuleExplanation → Bool} {q : Rule → Bool}
    (h : ∀ rule conditions, p (rule.explanation req conditions) = q rule) (rules : List Rule)
    (shares : List (List ConditionExplanation)) (hlen : shares.length = rules.length) :
    ((List.zipWith (Rule.explanation req) rules shares).find? p).map
        (fun e => (e.id, e.effect)) =
      (rules.find? q).map fun rule => (rule.id, rule.effect.asStr) := by
  induction rules generalizing shares with
  | nil => rfl
  | cons rule rest ih =>
    cases shares with
    | nil => exact absurd hlen (Nat.succ_ne_zero _).symm
    | cons share shares =>
      rw [List.zipWith_cons_cons, List.find?_cons, List.find?_cons, h]
      split
      · rfl
      · exact ih shares (Nat.succ.inj hlen)

theorem Effect.asStr_eq_iff (a b : Effect) : a.asStr = b.asStr ↔ a = b := by
  cases a <;> cases b <;> decide

theorem map_decidingExplanation (rules : List Rule) (shares : List (List ConditionExplanation))
    (hlen : shares.length = rules.length) :
    (decidingExplanation (List.zipWith (Rule.explanation req) rules shares)).map
        (fun e => (e.id, e.effect)) =
      (RuleSet.deciding req rules).map fun rule => (rule.id, rule.effect.asStr) := by
  have hfd (effect : Effect) := @find?_explanation req
    (fun e => e.matched && e.effect = effect.asStr)
    (fun rule => rule.matchesRequest req && rule.effect = effect)
    (fun rule conditions => by simp [Rule.explanation, Effect.asStr_eq_iff]) rules shares hlen
  rw [decidingExplanation, RuleSet.deciding, Option.map_or, Option.map_or]
  exact congrArg₂ Option.or (hfd .deny) (hfd .permit)

/-- The decision says no more than the effect and the name of the deciding rule. -/
theorem RuleSet.evaluate_of_deciding {rules : RuleSet} {e : Option RuleExplanation}
    (h : e.map (fun e => (e.id, e.effect)) =
      (deciding req rules.rules).map fun rule => (rule.id, rule.effect.asStr)) :
    (rules.evaluate req).permit = e.any (·.effect = "permit") ∧
      (rules.evaluate req).context.rule = e.map (·.id) := by
  rw [evaluate_eq]
  cases hrl : deciding req rules.rules with
  | none =>
    rw [hrl, Option.map_none, Option.map_eq_none_iff] at h
    rw [h]
    exact ⟨rfl, rfl⟩
  | some rule =>
    rw [hrl, Option.map_some, Option.map_eq_some_iff] at h
    obtain ⟨_, rfl, heq⟩ := h
    obtain ⟨hid, heff⟩ := Prod.mk.inj heq
    rw [Option.any_some, Option.map_some, hid, heff]
    exact ⟨by cases hcs : rule.effect <;> simp [Decision.fromRule, hcs, Effect.asStr], rfl⟩

end Decision

section Agreement

variable {req : EvaluationRequest}

theorem map_conditions_explanation (rules : List Rule) (shares : List (List ConditionExplanation))
    (hlen : shares.length = rules.length) :
    (List.zipWith (Rule.explanation req) rules shares).map (·.conditions) = shares := by
  induction rules generalizing shares with
  | nil => exact (List.length_eq_zero_iff.1 hlen).symm
  | cons rule rest ih =>
    cases shares with
    | nil => rfl
    | cons share shares => simpa [Rule.explanation] using ih shares (Nat.succ.inj hlen)

/-- **The explanation agrees with the decision.**  Deny overrides over the explained rules gives
the decision and the rule of the engine; a rule that is said to match is said to apply; and the
traces are, rule by rule, the nodes of the rules that apply, cut at 256 nodes in all, each with its
truth under the engine. -/
theorem explain_agrees {ν : Type} (revision : Document ν → String) (policy : StoredPolicy ν)
    (request : EvaluationRequest) (enforcementPoint : String) :
    let explanation := explain revision (some policy) request enforcementPoint
    let decision := policy.rules.evaluate request
    let rules := policy.rules.rules
    decision.permit = (decidingExplanation explanation.rules).any (·.effect = "permit") ∧
    decision.context.rule = (decidingExplanation explanation.rules).map (·.id) ∧
    (∀ rule ∈ explanation.rules, rule.matched = true → rule.applicable = true) ∧
    explanation.rules.map (·.conditions) =
      Recorder.cut 256 (rules.map (·.explained request)) ∧
    explanation.rules.flatMap (·.conditions) =
      (rules.flatMap (·.explained request)).take 256 ∧
    (explanation.rules.flatMap (·.conditions)).map (·.matched) =
      ((rules.flatMap (·.tracedNodes request)).take 256).map (·.holds request) ∧
    (explanation.truncated = true ↔
      256 < (rules.flatMap (·.tracedNodes request)).length) := by
  intro explanation _ rules
  have hlo := @explainRules_eq request rules 256 false
  have hrul : explanation.rules = List.zipWith (Rule.explanation request) rules
      (cut 256 (rules.map (·.explained request))) := congrArg Prod.fst hlo
  have htr : explanation.truncated =
      decide (256 < (rules.flatMap (·.tracedNodes request)).length) := congrArg Prod.snd hlo
  have hlen : (cut 256 (rules.map (·.explained request))).length = rules.length := by
    rw [length_cut, List.length_map]
  have hsh := @map_conditions_explanation request rules _ hlen
  have hfl : explanation.rules.flatMap (·.conditions) =
      (rules.flatMap (·.explained request)).take 256 := by
    rw [List.flatMap_def, hrul, hsh, flatten_cut, List.flatMap_def]
  have hdec := @map_decidingExplanation request rules _ hlen
  rw [← hrul] at hdec
  obtain ⟨hpm, hrl⟩ := RuleSet.evaluate_of_deciding hdec
  refine ⟨hpm, hrl, ?_, hrul ▸ hsh, hfl, ?_, by rw [htr, decide_eq_true_eq]⟩
  · intro _ hmem hma
    rw [hrul, ← List.map_uncurry_zip_eq_zipWith] at hmem
    obtain ⟨_, -, rfl⟩ := List.mem_map.1 hmem
    exact Rule.applicable_of_matches hma
  · rw [hfl, List.map_take, List.map_take, List.map_flatMap, List.map_flatMap]
    simp [Rule.map_matched_explained]

end Agreement

end AsteriusIdp.Policy
