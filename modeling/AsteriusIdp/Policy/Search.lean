import AsteriusIdp.Policy.Reference

/-!
# What a search can enumerate

A search asks which actions or resources a policy would permit.  Its candidates are what the rules
and the subject's live grants name, collected up to a cap; every candidate is then evaluated.

* `foldl_add`: below the cap nothing is dropped.
* `mem_literals`: the walk with a stack finds every literal resource of a condition.
* `evaluate_eq_of_unnamed`: the engine cannot tell two identifiers apart that no grant names.
* `candidates_complete`: which permits a search cannot miss.

A grant test with a literal resource compares the grants with it, not the identifier that is asked
about, and a negated one is passed by what the grants do not name: such permits hold of identifiers
nobody listed (`candidateResources_unnamed`).
-/

namespace AsteriusIdp.Policy

open ConditionalScope

/-! ### Candidates -/

/-- Candidates of a search. -/
def maxCandidates : ℕ := 1024

/-- The type fits, if it is given. -/
def headAdmits : Option String → Option String → Bool
  | some head, some asked => head = asked
  | _, _ => true

/-- The `permit` rules whose selectors admit the types that are asked about. -/
def RuleSet.applicable (rules : RuleSet) (subjectType resourceType : Option String) : List Rule :=
  rules.rules.filter fun rule => rule.effect = .permit && headAdmits rule.subjectType subjectType &&
    headAdmits rule.resourceType resourceType

/-- Nothing is added at the cap. -/
def add (candidates : Finset String) (value : String) : Finset String :=
  if candidates.card < maxCandidates then insert value candidates else candidates

/-- The literal resources of a condition, walked with a stack; a step takes a node off it. -/
def literalsFrom : ℕ → List Condition → List String
  | 0, _ | _, [] => []
  | fuel + 1, c :: pending => match c with
    | .all children | .any children => literalsFrom fuel (children.reverse ++ pending)
    | .not child => literalsFrom fuel (child :: pending)
    | .grant matcher => match matcher.resource with
      | some (.literal raw) => raw :: literalsFrom fuel pending
      | _ => literalsFrom fuel pending
    | .attr _ _ _ | .group _ | .role _ _ | .acrAtLeast _ | .trusted _ => literalsFrom fuel pending

/-- The resources it names. -/
def literals (c : Condition) : List String := literalsFrom c.nodes.length [c]

/-- The actions the applicable rules name, in the order they are added. -/
def namedActions (rules : RuleSet) (subjectType resourceType : String) : List String :=
  (rules.applicable (some subjectType) (some resourceType)).flatMap (·.actions.sort)

/-- The resources the applicable rules and the grants name, in the order they are added. -/
def namedResources (rules : RuleSet) (grants : List ActiveGrant) (resourceType : String) :
    List String :=
  (rules.applicable none (some resourceType)).flatMap (·.when.elim [] literals) ++
    grants.flatMap fun grant =>
      grant.resources.sort ++ grant.details.flatMap (·.locations.sort)

/-- The actions to try. -/
def candidateActions (rules : RuleSet) (subjectType resourceType : String) : Finset String :=
  -- the source returns at the cap: nothing is added after it either
  (namedActions rules subjectType resourceType).foldl add ∅

/-- The resources to try. -/
def candidateResources (rules : RuleSet) (grants : List ActiveGrant) (resourceType : String) :
    Finset String :=
  (namedResources rules grants resourceType).foldl add ∅

/-- **Below the cap nothing is dropped.** -/
theorem foldl_add {values : List String} {candidates : Finset String}
    (h : (candidates ∪ values.toFinset).card ≤ maxCandidates) :
    values.foldl add candidates = candidates ∪ values.toFinset := by
  induction values generalizing candidates with
  | nil => simp
  | cons value values ih =>
    have huni : candidates ∪ (value :: values).toFinset =
        insert value candidates ∪ values.toFinset := by
      rw [List.toFinset_cons, Finset.union_insert, Finset.insert_union]
    have hadd : add candidates value = insert value candidates := by
      unfold add
      split_ifs with hcap
      · rfl
      · -- the set is full, so that one more value within the cap is already in it
        have hle : (insert value candidates).card ≤ candidates.card := by
          have hsub := Finset.card_le_card
            (Finset.subset_union_left : insert value candidates ⊆ _ ∪ values.toFinset)
          rw [huni] at h
          omega
        exact Finset.eq_of_subset_of_card_le (Finset.subset_insert _ _) hle
    rw [List.foldl_cons, hadd, ih (huni ▸ h), huni]

/-! ### Literals -/

namespace Condition

/-- A grant test of the condition names the literal. -/
def Names (raw : String) (c : Condition) : Prop :=
  ∃ matcher, .grant matcher ∈ c.nodes ∧ matcher.resource = some (.literal raw)

variable {raw : String}

theorem names_iff {c : Condition} :
    c.Names raw ↔ (∃ matcher, c = .grant matcher ∧ matcher.resource = some (.literal raw)) ∨
    ∃ child ∈ c.children, child.Names raw := by
  simp only [Names, nodes_eq c, List.mem_cons]
  grind

end Condition

/-- How many nodes the stack holds. -/
def pendingNodes (pending : List Condition) : ℕ := (pending.map (·.nodes.length)).sum

theorem pendingNodes_cons (c : Condition) (pending : List Condition) :
    pendingNodes (c :: pending) = c.nodes.length + pendingNodes pending := by
  simp [pendingNodes]

theorem pendingNodes_reverse_append (cs pending : List Condition) :
    pendingNodes (cs.reverse ++ pending) =
      (cs.flatMap Condition.nodes).length + pendingNodes pending := by
  simp [pendingNodes, List.sum_reverse]

theorem one_le_length_nodes (c : Condition) : 1 ≤ c.nodes.length := by
  cases c <;> simp [Condition.nodes]

/-- Enough steps for every node on the stack find what the stack names. -/
theorem mem_literalsFrom {raw : String} {fuel : ℕ} {pending : List Condition}
    (hfu : pendingNodes pending ≤ fuel) :
    raw ∈ literalsFrom fuel pending ↔ ∃ c ∈ pending, c.Names raw := by
  induction fuel generalizing pending with
  | zero =>
    cases pending with
    | nil => simp [literalsFrom]
    | cons c =>
      rw [pendingNodes_cons] at hfu
      have hnd := one_le_length_nodes c
      omega
  | succ fuel ih =>
    cases pending with
    | nil => simp [literalsFrom]
    | cons c pending =>
      rw [pendingNodes_cons, Condition.nodes_eq, List.length_cons] at hfu
      have hrs := @ih pending (by omega)
      rw [List.exists_mem_cons_iff, Condition.names_iff, ← hrs]
      -- a combination puts its children on the stack, a leaf is answered at once
      cases c with
      | all cs | any cs =>
        rw [Condition.children] at hfu
        rw [literalsFrom, ih (by rw [pendingNodes_reverse_append]; omega)]
        simp [Condition.children, or_and_right, exists_or, hrs]
      | not =>
        rw [literalsFrom, ih (by rw [pendingNodes_cons]; simp_all [Condition.children]; omega)]
        simp [Condition.children, hrs]
      | grant matcher =>
        rw [literalsFrom]
        split
        · rename_i literal hlit
          simp [hlit, Condition.children, eq_comm]
        · rename_i hoth
          simpa [Condition.children] using fun h => (hoth raw h).elim
      | attr | group | role | acrAtLeast | trusted => simp [literalsFrom, Condition.children]

/-- **The walk finds every literal** of a condition, at any depth. -/
theorem mem_literals {raw : String} {c : Condition} : raw ∈ literals c ↔ c.Names raw := by
  rw [literals, mem_literalsFrom (by simp [pendingNodes])]
  simp

/-! ### Permits -/

/-- The same question about another resource. -/
def EvaluationRequest.withResource (request : EvaluationRequest) (id : String) :
    EvaluationRequest :=
  { request with resource := { request.resource with id } }

/-- None of the subject's grants names the resource. -/
def EvaluationRequest.Unnamed (request : EvaluationRequest) (id : String) : Prop :=
  ∀ grant ∈ request.subject.grants, id ∉ grant.resources

section Permits

variable {rules : RuleSet} {req : EvaluationRequest} {rule : Rule} {id : String}

/-- A test for the resource that is asked about fails for one nobody names. -/
theorem grantMatches_of_unnamed (hsf : req.Unnamed req.resource.id)
    (hoth : req.Unnamed id) (matcher : GrantMatch) {grant : ActiveGrant}
    (hgr : grant ∈ req.subject.grants) :
    matcher.grantMatches grant (req.withResource id) = matcher.grantMatches grant req := by
  unfold GrantMatch.grantMatches
  match hres : matcher.resource with
  | none | some (.literal _) => rfl
  | some .theResource =>
    have h₁ : req.resource.id ∉ grant.resources := hsf grant hgr
    have h₂ : (req.withResource id).resource.id ∉ grant.resources := hoth grant hgr
    simp [h₁, h₂]

/-- **The engine cannot tell two identifiers apart** that no grant names. -/
theorem evaluate_eq_of_unnamed (hsf : req.Unnamed req.resource.id) (hoth : req.Unnamed id) :
    rules.evaluate (req.withResource id) = rules.evaluate req := by
  refine RuleSet.evaluate_congr fun rule _ => ?_
  have hwn : (rule.when.all fun c => c.holds (req.withResource id)) =
      rule.when.all fun c => c.holds req := by
    cases rule.when with
    | none => rfl
    | some c =>
      refine Condition.holds_congr c fun node _ hlf => ?_
      cases node with
      | all | any | not => exact hlf.elim
      | attr source => cases source <;> rfl
      | group | role | acrAtLeast | trusted => rfl
      | grant matcher =>
        rw [Condition.holds, Condition.holds, Bool.eq_iff_iff, List.any_eq_true, List.any_eq_true]
        refine exists_congr fun grant => and_congr_right fun hgr => ?_
        rw [grantMatches_of_unnamed hsf hoth matcher hgr]
  rw [matchesRequest_eq, matchesRequest_eq, hwn]
  rfl

theorem mem_applicable {subjectType resourceType : Option String} :
    rule ∈ rules.applicable subjectType resourceType ↔ rule ∈ rules.rules ∧
    rule.effect = .permit ∧ headAdmits rule.subjectType subjectType = true ∧
    headAdmits rule.resourceType resourceType = true := by
  simp [RuleSet.applicable, and_assoc]

/-- A rule that matches a request has selectors that admit its types. -/
theorem headAdmits_of_matches (h : rule.matchesRequest req = true) :
    headAdmits rule.subjectType (some req.subject.kind) = true ∧
    headAdmits rule.resourceType (some req.resource.kind) = true := by
  rw [matchesRequest_eq, selects] at h
  simp only [Bool.and_eq_true] at h
  obtain ⟨⟨⟨hsj, hres⟩, -⟩, -⟩ := h
  constructor
  · cases hkd : rule.subjectType with
    | none => rfl
    | some => simpa [hkd, headAdmits] using hsj
  · cases hkd : rule.resourceType with
    | none => rfl
    | some => simpa [hkd, headAdmits] using hres

theorem mem_namedActions (hrl : rule ∈ rules.rules) (hpm : rule.effect = .permit)
    (hmat : rule.matchesRequest req = true) (hnms : rule.actions ≠ ∅) :
    req.action.name ∈ namedActions rules req.subject.kind req.resource.kind := by
  have hadm := headAdmits_of_matches hmat
  rw [matchesRequest_eq, selects] at hmat
  have hact : req.action.name ∈ rule.actions := by simp_all
  exact List.mem_flatMap.2 ⟨rule, mem_applicable.2 ⟨hrl, hpm, hadm⟩, (Finset.mem_sort _).2 hact⟩

/-- What the rules and the grants name. -/
theorem mem_namedResources {grants : List ActiveGrant} {resourceType : String} :
    id ∈ namedResources rules grants resourceType ↔
      (∃ rule ∈ rules.applicable none (some resourceType), ∃ c ∈ rule.when, c.Names id) ∨
        ∃ grant ∈ grants, id ∈ grant.resources ∨
          ∃ detail ∈ grant.details, id ∈ detail.locations := by
  rw [namedResources, List.mem_append, List.mem_flatMap]
  refine or_congr (exists_congr fun rule => and_congr_right fun _ => ?_) ?_
  · cases rule.when with
    | none => simp
    | some => simp [mem_literals]
  · simp

end Permits

/-- **What a search cannot miss**, below the cap: an action that a rule naming its actions permits;
a resource whose permit depends on a grant naming it; and whatever the grants, or a grant test of an
applicable rule at any depth, name. -/
theorem candidates_complete (rules : RuleSet) (request : EvaluationRequest) :
    ((namedActions rules request.subject.kind request.resource.kind).toFinset.card ≤
        maxCandidates → ∀ rule ∈ rules.rules, rule.effect = .permit →
          rule.matchesRequest request = true → rule.actions ≠ ∅ →
            request.action.name ∈
              candidateActions rules request.subject.kind request.resource.kind) ∧
    ((namedResources rules request.subject.grants request.resource.kind).toFinset.card ≤
        maxCandidates →
      ((rules.evaluate request).permit = true →
        (∃ other, request.Unnamed other ∧
          (rules.evaluate (request.withResource other)).permit = false) →
        request.resource.id ∈
          candidateResources rules request.subject.grants request.resource.kind) ∧
      ∀ id, ((∃ rule ∈ rules.rules, rule.effect = .permit ∧
          headAdmits rule.resourceType (some request.resource.kind) = true ∧
          ∃ c ∈ rule.when, c.Names id) ∨
          ∃ grant ∈ request.subject.grants,
            id ∈ grant.resources ∨ ∃ detail ∈ grant.details, id ∈ detail.locations) →
        id ∈ candidateResources rules request.subject.grants request.resource.kind) := by
  refine ⟨fun hcap rule hrl hpm hmat hnms => ?_, fun hcap => ?_⟩
  · rw [candidateActions, foldl_add (by simpa using hcap)]
    simpa using mem_namedActions hrl hpm hmat hnms
  · rw [candidateResources, foldl_add (by simpa using hcap)]
    simp only [Finset.empty_union, List.mem_toFinset, mem_namedResources]
    refine ⟨fun hpm ⟨other, hoth, hden⟩ => ?_, fun id hid => ?_⟩
    · by_contra hunn
      have hsf : request.Unnamed request.resource.id := fun grant hgr hmem =>
        hunn (.inr ⟨grant, hgr, .inl hmem⟩)
      rw [evaluate_eq_of_unnamed hsf hoth, hpm] at hden
      cases hden
    · refine hid.imp_left fun ⟨rule, hrl, hpm, hadm, c, hc, hnms⟩ => ?_
      refine ⟨rule, mem_applicable.2 ⟨hrl, hpm, ?_, hadm⟩, c, hc, hnms⟩
      cases rule.subjectType <;> rfl

/-- One rule that permits reading a document under a condition. -/
def readRule (c : Condition) : RuleSet :=
  ⟨[{ id := "read", effect := .permit, subjectType := none, resourceType := some "document",
      actions := {"read"}, when := some c, reasonAdmin := none, reasonUser := none,
      acrValues := [] }]⟩

/-- A grant for the resource. -/
def grantFor (resource : GrantResource) : Condition :=
  .grant { resource := some resource, scope := none, detailType := none, action := none,
           client := none }

/-- A user whose one grant names the document `a` asks to read a document. -/
def readRequest (id : String) : EvaluationRequest :=
  { subject := { kind := "user", id := "u", properties := [], groups := ∅,
                 roles := { tenant := ∅, clients := [] },
                 grants := [{ client := "app", scopes := ∅, resources := {"a"}, details := [] }] }
    action := { name := "read", properties := [] }
    resource := { kind := "document", id, properties := [] }
    context := { acr := none, ladder := [], properties := [], trusted := none } }

theorem candidates_complete_granted :
    "read" ∈ candidateActions (readRule (grantFor .theResource)) "user" "document" ∧
    "a" ∈ candidateResources (readRule (grantFor .theResource)) (readRequest "a").subject.grants
      "document" := by
  obtain ⟨hac, hrs⟩ :=
    candidates_complete (readRule (grantFor .theResource)) (readRequest "a")
  refine ⟨hac (by decide +kernel) _ List.mem_cons_self rfl (by decide) (by decide),
    (hrs (by decide +kernel)).1 (by decide) ⟨"b", ?_, by decide⟩⟩
  unfold EvaluationRequest.Unnamed
  decide

/-- Documents that the search does not propose, though reading them is permitted: by a negated
comparison with the grants, and by a literal that only the grants are compared with. -/
theorem candidateResources_unnamed :
    (((readRule (.not (grantFor .theResource))).evaluate (readRequest "b")).permit = true ∧
      "b" ∉ candidateResources (readRule (.not (grantFor .theResource)))
        (readRequest "b").subject.grants "document") ∧
    ((readRule (grantFor (.literal "a"))).evaluate (readRequest "b")).permit = true ∧
      "b" ∉ candidateResources (readRule (grantFor (.literal "a")))
        (readRequest "b").subject.grants "document" := by
  decide +kernel

end AsteriusIdp.Policy
