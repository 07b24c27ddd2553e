import AsteriusIdp.Federation.Policy

/-!
# Resolved metadata satisfies every statement's policy

The program never checks the resolved metadata against the single statements: it folds their
policies into one and applies that.  Here every operator of every subordinate statement is traced
through the fold and the application.

* `Operator.Tightens` : the merged operand demands at least what an operand merged into it did.
* `Operator.Holds` : what an operator demands of the value of its parameter.
* `mergePolicy_covers` : a merged policy tightens every policy that went into it.
* `parameterValue_holds` : the value computed for a parameter satisfies every operator of its
  validated policy, in whatever order the operators were applied.
* `resolve_holds` : **no inferior loosens what a superior imposed.**
-/

namespace AsteriusIdp.Federation

open Fallible Entries

namespace Operator

@[simp] theorem ofKey_key (op : Operator) : ofKey op.key = some op := by
  cases op <;> decide

variable {op : Operator}

theorem ofKey_eq_some {name : String} : ofKey name = some op ↔ name = op.key := by
  constructor
  · intro h
    have := List.find?_some h
    simpa [eq_comm] using this
  · rintro rfl
    exact ofKey_key op

theorem key_injective : Function.Injective key := by
  intro _ b h
  have := ofKey_key b
  rw [← h, ofKey_key] at this
  exact Option.some.inj this

/-- `new` demands at least what `old` does. -/
def Tightens : Operator → Json → Json → Prop
  | value, new, old | default, new, old => new = old
  | essential, new, old => old = .bool true → new = .bool true
  | add, new, old | supersetOf, new, old =>
    ∃ n o, new = .arr n ∧ old = .arr o ∧ ∀ item ∈ o, item ∈ n
  | oneOf, new, old | subsetOf, new, old =>
    ∃ n o, new = .arr n ∧ old = .arr o ∧ ∀ item ∈ n, item ∈ o

/-- What an operator demands of the value of its parameter, `none` for an absent one. -/
def Holds : Operator → Json → Option Json → Prop
  | value, operand, v => v = if operand = .null then none else some operand
  | default, _, v => v ≠ none
  | essential, operand, v => operand = .bool true → v ≠ none
  | add, operand, v => ∃ items list, operand = .arr items ∧ v = some (.arr list) ∧
      ∀ item ∈ items, item ∈ list
  | oneOf, operand, v => ∀ x, v = some x → ∃ items, operand = .arr items ∧ x ∈ items
  | subsetOf, operand, v => ∀ x, v = some x → ∃ items list, operand = .arr items ∧
      x = .arr list ∧ ∀ item ∈ list, item ∈ items
  | supersetOf, operand, v => ∀ x, v = some x → ∃ items list, operand = .arr items ∧
      x = .arr list ∧ ∀ item ∈ items, item ∈ list

theorem Tightens.trans {a b c : Json} (h : op.Tightens a b) (h' : op.Tightens b c) :
    op.Tightens a c := by
  cases op with
  | value => exact Eq.trans h h'
  | default => exact Eq.trans h h'
  | essential => exact fun hc => h (h' hc)
  | add | supersetOf =>
    obtain ⟨n, o, rfl, rfl, hon⟩ := h
    obtain ⟨n', o', hn', rfl, hon'⟩ := h'
    cases hn'
    exact ⟨n, o', rfl, rfl, fun item hi => hon item (hon' item hi)⟩
  | oneOf | subsetOf =>
    obtain ⟨n, _, rfl, rfl, hno⟩ := h
    obtain ⟨_, o', hn', rfl, hno'⟩ := h'
    cases hn'
    exact ⟨n, o', rfl, rfl, fun item hi => hno' item (hno item hi)⟩

/-- A value that meets the tighter demand meets the looser one. -/
theorem Holds.mono {new old : Json} {v : Option Json} (h : op.Tightens new old)
    (hv : op.Holds new v) : op.Holds old v := by
  cases op with
  | value => exact (h : new = old) ▸ hv
  | default => exact hv
  | essential => exact fun hold => hv (h hold)
  | add =>
    obtain ⟨n, o, rfl, rfl, hon⟩ := h
    obtain ⟨items, list, he, hls, hsub⟩ := hv
    cases he
    exact ⟨o, list, rfl, hls, fun item hi => hsub item (hon item hi)⟩
  | supersetOf =>
    obtain ⟨n, o, rfl, rfl, hon⟩ := h
    intro x hx
    obtain ⟨items, list, he, hls, hsub⟩ := hv x hx
    cases he
    exact ⟨o, list, rfl, hls, fun item hi => hsub item (hon item hi)⟩
  | oneOf =>
    obtain ⟨n, o, rfl, rfl, hno⟩ := h
    intro x hx
    obtain ⟨items, he, hmem⟩ := hv x hx
    cases he
    exact ⟨o, rfl, hno x hmem⟩
  | subsetOf =>
    obtain ⟨_, o, rfl, rfl, hno⟩ := h
    intro x hx
    obtain ⟨_, list, he, hls, hsub⟩ := hv x hx
    cases he
    exact ⟨o, list, rfl, hls, fun item hi => hno item (hsub item hi)⟩

end Operator

/-! ### Validated operators -/

theorem strings_ok {value : Json} {what : String} {l : List String}
    (h : strings value what = .ok l) : value = .arr (l.map .str) := by
  simp only [strings, bind_ok, okOr_ok, Json.asArray_eq_some] at h
  obtain ⟨_, rfl, h⟩ := h
  rw [mapM_ok] at h
  congr 1
  induction h with
  | nil => rfl
  | cons hx _ ih =>
    simp only [okOr_ok, Json.asStr_eq_some] at hx
    rw [hx, ih, List.map_cons]

variable {op : Operator}

/-- A validated operand is at least as tight as itself: array operators have arrays. -/
theorem tightens_self_of_validateOperand {value : Json}
    (h : validateOperand op.key value = .ok ()) : op.Tightens value value := by
  simp only [validateOperand, Operator.ofKey_key] at h
  cases op with
  | value => rfl
  | default => rfl
  | essential => exact id
  | add | supersetOf | oneOf | subsetOf =>
    simp only [bind_ok] at h
    obtain ⟨_, hl, -⟩ := h
    rw [strings_ok hl]
    exact ⟨_, _, rfl, rfl, fun _ => id⟩

/-- What validation establishes about the operators of one parameter, as far as the application
of the policy depends on it. -/
structure ValidOperators (operators : Object) : Prop where
  /-- Every operand has the type of its operator. -/
  operand : ∀ op v, operators.lookup (Operator.key op) = some v →
    validateOperand op.key v = .ok ()
  /-- `one_of` excludes `subset_of`. -/
  oneOfAlone : ∀ v w, operators.lookup "one_of" = some v →
    operators.lookup "subset_of" = some w → False
  /-- A removed parameter has no default. -/
  nullDefault : ∀ d, operators.lookup "value" = some .null →
    operators.lookup "default" = some d → False
  /-- A fixed value contains the added items. -/
  valueAdd : ∀ v a, operators.lookup "value" = some v → operators.lookup "add" = some a →
    ∃ array items, v = .arr array ∧ a = .arr items ∧ ∀ item ∈ items, item ∈ array
  /-- A fixed value is inside the allowed items. -/
  valueSubset : ∀ v s, operators.lookup "value" = some v → operators.lookup "subset_of" = some s →
    ∃ array, v = .arr array ∧ ∀ items, s = .arr items → ∀ item ∈ array, item ∈ items
  /-- The added items are allowed. -/
  addSubset : ∀ a s, operators.lookup "add" = some a → operators.lookup "subset_of" = some s →
    ∃ items allowed, a = .arr items ∧ s = .arr allowed ∧ ∀ item ∈ items, item ∈ allowed

variable {value v₁ v₂ : Option Json}
  {ops parameters fields fields' metadata metadata' : Object} {entry e : String × Json}
  {operand : Json} {name : String} {chain : List Statement}

theorem validOperators_of_ok (h : validateOperators ops = .ok ()) : ValidOperators ops := by
  simp only [validateOperators, bind_ok, forM_ok] at h
  obtain ⟨_, hops, _, haln, _, -, _, hval, _, hadd, -⟩ := h
  constructor
  · intro op v hv
    exact hops _ (mem_of_lookup hv)
  · intro v w hv hw
    simp only [checkOneOfAlone, refuseIf_ok] at haln
    exact haln ⟨by simp [contains, hv], "subset_of", by simp, by
      simp [contains, hw]⟩
  · intro d hv hd
    simp only [checkValue, hv, bind_ok, refuseIf_ok] at hval
    obtain ⟨_, hnu, -⟩ := hval
    exact hnu ⟨trivial, by simp [contains, hd]⟩
  · intro v a hv ha
    simp only [checkValue, hv, bind_ok] at hval
    obtain ⟨_, -, _, -, _, hva, -⟩ := hval
    simp only [checkValueAdd, ha, bind_ok, okOr_ok, Json.asArray_eq_some, refuseIf_ok,
      not_not] at hva
    obtain ⟨array, hv', items, hi, hsub⟩ := hva
    exact ⟨array, items, hv', Json.asArray_eq_some.1 hi, hsub⟩
  · intro _ s hv hs
    simp only [checkValue, hv, bind_ok] at hval
    obtain ⟨_, -, _, -, _, -, _, hvs, -⟩ := hval
    simp only [checkValueSubset, hs, bind_ok, okOr_ok, Json.asArray_eq_some, refuseIf_ok,
      not_not] at hvs
    obtain ⟨array, hv', hsub⟩ := hvs
    refine ⟨array, hv', ?_⟩
    rintro items rfl item hit
    obtain ⟨_, hi, hmem⟩ := hsub item hit
    cases Json.asArray_eq_some.1 hi
    exact hmem
  · intro _ _ ha hs
    simp only [checkAddInSubset, ha, hs, bind_ok, refuseIf_ok] at hadd
    obtain ⟨_, hi, _, hl, hsub⟩ := hadd
    refine ⟨_, _, strings_ok hi, strings_ok hl, ?_⟩
    simp only [List.mem_map]
    rintro _ ⟨item, hit, rfl⟩
    by_contra hno
    exact hsub ⟨item, hit, fun hmem => hno ⟨item, hmem, rfl⟩⟩

/-! ### Merging -/

@[simp] theorem mem_union {current items : List Json} {x : Json} :
    x ∈ union current items ↔ x ∈ current ∨ x ∈ items := by
  unfold union
  induction items generalizing current with
  | nil => simp
  | cons item items ih =>
    rw [List.foldl_cons, ih, List.mem_cons]
    split_ifs with h
    · constructor
      · exact fun hx => hx.imp id .inr
      · rintro (hx | rfl | hx)
        · exact .inl hx
        · exact .inl h
        · exact .inr hx
    · simp [or_assoc]

/-- The merged operand is tighter than both. -/
theorem mergeOperator_tightens {current next merged : Json}
    (h : mergeOperator op current next = .ok merged) :
    op.Tightens merged current ∧ op.Tightens merged next := by
  cases op with
  | value | default =>
    simp only [mergeOperator, bind_ok, refuseIf_ok, not_not, pure_ok] at h
    obtain ⟨_, rfl, rfl⟩ := h
    exact ⟨rfl, rfl⟩
  | essential =>
    simp only [mergeOperator, pure_ok] at h
    subst h
    constructor
    · rintro rfl
      simp [Json.asBool]
    · rintro rfl
      simp [Json.asBool]
  | add | supersetOf =>
    simp only [mergeOperator, bind_ok, okOr_ok, Json.asArray_eq_some, pure_ok] at h
    obtain ⟨c, rfl, n, rfl, rfl⟩ := h
    exact ⟨⟨_, _, rfl, rfl, fun item hi => mem_union.2 (.inl hi)⟩,
      ⟨_, _, rfl, rfl, fun item hi => mem_union.2 (.inr hi)⟩⟩
  | oneOf | subsetOf =>
    simp only [mergeOperator, bind_ok, okOr_ok, Json.asArray_eq_some, pure_ok] at h
    obtain ⟨n, rfl, c, rfl, _, -, rfl⟩ := h
    refine ⟨⟨_, _, rfl, rfl, fun item hi => (List.mem_filter.1 hi).1⟩, ⟨_, _, rfl, rfl, ?_⟩⟩
    intro item hi
    simpa using (List.mem_filter.1 hi).2

/-- A demand of a policy: one operator with its operand, on one parameter of one entity type. -/
structure Demand where
  entityType : String
  name : String
  op : Operator
  operand : Json

/-- The operators of a parameter make the demand. -/
def OperatorsImpose (operators : Object) (d : Demand) : Prop := (d.op.key, d.operand) ∈ operators

/-- The parameters of an entity type make the demand. -/
def ParametersImpose (parameters : Object) (d : Demand) : Prop :=
  ∃ operators, (d.name, .obj operators) ∈ parameters ∧ OperatorsImpose operators d

/-- A metadata policy makes the demand. -/
def PolicyImposes (policy : Object) (d : Demand) : Prop :=
  ∃ parameters, (d.entityType, .obj parameters) ∈ policy ∧ ParametersImpose parameters d

/-- The collected operators of a parameter have a demand at least as tight. -/
def Covers (operators : Object) (d : Demand) : Prop :=
  ∃ new, operators.lookup d.op.key = some new ∧ d.op.Tightens new d.operand

/-- The collected parameters of an entity type have a demand at least as tight. -/
def CoversParameter (parameters : Object) (d : Demand) : Prop :=
  ∃ operators : Object, parameters.lookup d.name = some (.obj operators) ∧ Covers operators d

/-- The combined policy has a demand at least as tight. -/
def CoversType (policy : Object) (d : Demand) : Prop :=
  ∃ parameters : Object, policy.lookup d.entityType = some (.obj parameters) ∧
    CoversParameter parameters d

variable {current old old' policy current' : Object}

/-- One merged entry keeps what was covered and covers itself. -/
theorem mergeEntry_covers (hok : validateOperand entry.1 entry.2 = .ok ())
    (h : mergeEntry old entry = .ok old') :
    (∀ d, Covers old d → Covers old' d) ∧
      ∀ d : Demand, (d.op.key, d.operand) = entry → Covers old' d := by
  obtain ⟨name, value⟩ := entry
  unfold mergeEntry at h
  cases hop : Operator.ofKey name with
  | none =>
    simp only [hop, pure_ok] at h
    subst h
    refine ⟨fun _ => id, ?_⟩
    rintro d ⟨⟩
    simp at hop
  | some op =>
    obtain rfl := Operator.ofKey_eq_some.1 hop
    simp only [hop] at h
    obtain ⟨merged, rfl, hcur, hnx⟩ : ∃ merged, old.insert op.key merged = old' ∧
        (∀ previous ∈ lookup old op.key, op.Tightens merged previous) ∧
          op.Tightens merged value := by
      cases hpv : lookup old op.key with
      | none =>
        simp only [hpv, pure_ok] at h
        exact ⟨value, h, by simp, tightens_self_of_validateOperand hok⟩
      | some =>
        simp only [hpv, bind_ok, pure_ok] at h
        obtain ⟨merged, hmrg, rfl⟩ := h
        obtain ⟨hcur, hnx⟩ := mergeOperator_tightens hmrg
        exact ⟨merged, rfl, fun _ hpre => Option.some.inj hpre ▸ hcur, hnx⟩
    constructor
    · rintro d ⟨new, hnew, ht⟩
      by_cases heq : d.op.key = op.key
      · obtain rfl := Operator.key_injective heq
        exact ⟨merged, lookup_insert_self .., (hcur new hnew).trans ht⟩
      · exact ⟨new, by rw [lookup_insert_of_ne _ _ heq, hnew], ht⟩
    · rintro _ heq
      obtain ⟨hkey, rfl⟩ := Prod.ext_iff.1 heq
      obtain rfl := Operator.key_injective hkey
      exact ⟨merged, lookup_insert_self .., hnx⟩

/-- Merging the operators of a parameter keeps what was covered and covers every one of them. -/
theorem mergeEntries_covers (h : ops.foldlM mergeEntry old = .ok old')
    (hok : validateOperators ops = .ok ()) :
    (∀ d, Covers old d → Covers old' d) ∧ ∀ d, OperatorsImpose ops d → Covers old' d := by
  simp only [validateOperators, bind_ok, forM_ok] at hok
  obtain ⟨_, hops, -⟩ := hok
  obtain ⟨-, hold, hnew⟩ := foldlM_grows (I := fun _ => True) (C := Covers)
    (G := fun entry d => (d.op.key, d.operand) = entry) h trivial fun entry hent s s' _ hst =>
      ⟨trivial, mergeEntry_covers (hops entry hent) hst⟩
  exact ⟨hold, fun d hd => hnew _ hd d rfl⟩

/-- The collected parameters of an entity type: distinct, and each with validated operators. -/
structure WellMerged (parameters : Object) : Prop where
  /-- The parameters are distinct. -/
  sorted : Entries.Sorted parameters
  /-- The operators collected for a parameter were validated. -/
  valid : ∀ e ∈ parameters, ∃ operators, e.2 = .obj operators ∧
    validateOperators operators = .ok ()

/-- The combined policy: distinct entity types, each with collected parameters. -/
structure WellCombined (policy : Object) : Prop where
  /-- The entity types are distinct. -/
  sorted : Entries.Sorted policy
  /-- Each has its collected parameters. -/
  merged : ∀ e ∈ policy, ∃ parameters, e.2 = .obj parameters ∧ WellMerged parameters

theorem wellMerged_nil : WellMerged [] := ⟨Sorted.nil, by simp⟩

theorem wellCombined_nil : WellCombined [] := ⟨Sorted.nil, by simp⟩

theorem WellMerged.insert (h : WellMerged parameters) (name : String)
    (hok : validateOperators ops = .ok ()) : WellMerged (parameters.insert name (.obj ops)) := by
  refine ⟨h.sorted.insert _ _, fun e he => ?_⟩
  rcases eq_or_mem_of_mem_insert he with rfl | he
  · exact ⟨ops, rfl, hok⟩
  · exact h.valid e he

theorem WellCombined.insert (h : WellCombined policy) (entityType : String)
    (hmrg : WellMerged parameters) : WellCombined (policy.insert entityType (.obj parameters)) := by
  refine ⟨h.sorted.insert _ _, fun e he => ?_⟩
  rcases eq_or_mem_of_mem_insert he with rfl | he
  · exact ⟨parameters, rfl, hmrg⟩
  · exact h.merged e he

theorem mergeParameter_covers {target target' : Object} (hm : WellMerged target)
    (h : mergeParameter target entry = .ok target') :
    WellMerged target' ∧ (∀ d, CoversParameter target d → CoversParameter target' d) ∧
    ∀ d, ParametersImpose [entry] d → CoversParameter target' d := by
  obtain ⟨name, _⟩ := entry
  simp only [mergeParameter, object, bind_ok, okOr_ok, Json.asObject_eq_some, pure_ok] at h
  obtain ⟨_, rfl, _, hok, _, hexi, old', hmrg, _, hok', rfl⟩ := h
  obtain ⟨hold, hnew⟩ := mergeEntries_covers hmrg hok
  refine ⟨hm.insert name hok', ?_, ?_⟩
  · rintro d ⟨operators₀, hlk, hcov⟩
    by_cases hnm : d.name = name
    · subst hnm
      rw [hlk, Option.getD_some, Json.obj.injEq] at hexi
      subst hexi
      exact ⟨old', lookup_insert_self .., hold d hcov⟩
    · exact ⟨operators₀, by rw [lookup_insert_of_ne _ _ hnm, hlk], hcov⟩
  · rintro d ⟨_, hmem, himp⟩
    simp only [List.mem_singleton, Prod.mk.injEq, Json.obj.injEq] at hmem
    obtain ⟨rfl, rfl⟩ := hmem
    exact ⟨old', lookup_insert_self .., hnew d himp⟩

theorem mergeEntityType_covers (hc : WellCombined current)
    (h : mergeEntityType current entry = .ok current') :
    WellCombined current' ∧ (∀ d, CoversType current d → CoversType current' d) ∧
    ∀ d, PolicyImposes [entry] d → CoversType current' d := by
  obtain ⟨entityType, _⟩ := entry
  simp only [mergeEntityType, object, bind_ok, okOr_ok, Json.asObject_eq_some, pure_ok] at h
  obtain ⟨_, rfl, target, htgt, target', hmrg, rfl⟩ := h
  have hm : WellMerged target := by
    cases hlk : lookup current entityType with
    | none =>
      rw [hlk, Option.getD_none, Json.obj.injEq] at htgt
      exact htgt ▸ wellMerged_nil
    | some =>
      rw [hlk] at htgt
      subst htgt
      obtain ⟨_, heq, hm⟩ := hc.merged _ (mem_of_lookup hlk)
      exact Json.obj.inj heq ▸ hm
  obtain ⟨hm', hold, hnew⟩ := foldlM_grows (C := CoversParameter)
    (G := fun entry => ParametersImpose [entry]) hmrg hm
    fun entry _ s s' hs hst => mergeParameter_covers hs hst
  refine ⟨hc.insert entityType hm', ?_, ?_⟩
  · rintro d ⟨parameters₀, hlk, hcov⟩
    by_cases hty : d.entityType = entityType
    · subst hty
      rw [hlk, Option.getD_some, Json.obj.injEq] at htgt
      subst htgt
      exact ⟨target', lookup_insert_self .., hold d hcov⟩
    · exact ⟨parameters₀, by rw [lookup_insert_of_ne _ _ hty, hlk], hcov⟩
  · rintro d ⟨_, hmem, ops, hop, himp⟩
    simp only [List.mem_singleton, Prod.mk.injEq, Json.obj.injEq] at hmem
    obtain ⟨rfl, rfl⟩ := hmem
    exact ⟨target', lookup_insert_self .., hnew _ hop d ⟨ops, by simp, himp⟩⟩

/-- A statement's policy merged into the combined one: what was covered stays covered, and every
demand of the statement is. -/
theorem mergePolicy_covers {incoming : Object} (hc : WellCombined current)
    (h : mergePolicy current incoming = .ok current') :
    WellCombined current' ∧ (∀ d, CoversType current d → CoversType current' d) ∧
    ∀ d, PolicyImposes incoming d → CoversType current' d := by
  obtain ⟨hc', hold, hnew⟩ := foldlM_grows (C := CoversType)
    (G := fun entry => PolicyImposes [entry]) h hc
    fun entry _ s s' hs hst => mergeEntityType_covers hs hst
  refine ⟨hc', hold, ?_⟩
  rintro d ⟨parameters, hmem, himp⟩
  exact hnew _ hmem d ⟨parameters, by simp, himp⟩

/-! ### Application -/

theorem union_eq_self {current items : List Json} (h : ∀ item ∈ items, item ∈ current) :
    union current items = current := by
  unfold union
  induction items with
  | nil => rfl
  | cons item items ih =>
    rw [List.foldl_cons, if_pos (h item List.mem_cons_self)]
    exact ih fun x hx => h x (List.mem_cons_of_mem _ hx)

variable {value' : Option Json}

theorem addItems_cases (h : addItems ops value = .ok value') :
    (ops.lookup "add" = none ∧ value' = value) ∨
      ∃ items list, ops.lookup "add" = some (.arr items) ∧
      value.getD (.arr []) = .arr list ∧ value' = some (.arr (union list items)) := by
  unfold addItems at h
  cases hadd : lookup ops "add" with
  | none =>
    simp only [hadd, pure_ok] at h
    exact .inl ⟨rfl, h.symm⟩
  | some =>
    simp only [hadd, bind_ok, okOr_ok, Json.asArray_eq_some, pure_ok] at h
    obtain ⟨items, rfl, list, hls, rfl⟩ := h
    exact .inr ⟨items, list, rfl, hls, rfl⟩

theorem retainSubset_cases (h : retainSubset ops value = .ok value') :
    ((ops.lookup "subset_of" = none ∨ value = none) ∧ value' = value) ∨
      ∃ allowed list, ops.lookup "subset_of" = some (.arr allowed) ∧
      value = some (.arr list) ∧ value' = some (.arr (list.filter (· ∈ allowed))) := by
  unfold retainSubset at h
  cases hsub : lookup ops "subset_of" with
  | none =>
    simp only [hsub, pure_ok] at h
    exact .inl ⟨.inl rfl, h.symm⟩
  | some =>
    cases value with
    | none =>
      simp only [hsub, pure_ok] at h
      exact .inl ⟨.inr rfl, h.symm⟩
    | some =>
      simp only [hsub, bind_ok, okOr_ok, Json.asArray_eq_some, pure_ok] at h
      obtain ⟨list, rfl, allowed, rfl, rfl⟩ := h
      exact .inr ⟨allowed, list, rfl, rfl, rfl⟩

section

variable (hv : ValidOperators ops)
include hv

/-- A removed parameter stays removed: validation left no operator that could bring it back. -/
theorem removed_stays (hnu : ops.lookup "value" = some .null)
    (hadd : addItems ops (fixValue ops value) = .ok v₁)
    (hret : retainSubset ops (useDefault ops v₁) = .ok v₂) : v₂ = none := by
  have hfix : fixValue ops value = none := by simp [fixValue, hnu]
  rw [hfix] at hadd
  obtain ⟨-, rfl⟩ | ⟨_, _, hit, -, -⟩ := addItems_cases hadd
  · have hdef : lookup ops "default" = none := by
      cases hd : lookup ops "default" with
      | none => rfl
      | some d => exact (hv.nullDefault d hnu hd).elim
    rw [useDefault, hdef] at hret
    obtain ⟨-, h⟩ | ⟨_, _, -, h, -⟩ := retainSubset_cases hret
    · exact h
    · cases h
  · obtain ⟨_, _, h, -⟩ := hv.valueAdd _ _ hnu hit
    cases h

/-- A fixed value stays what it is: what is added is already there and nothing is dropped. -/
theorem fixed_stays {fixed : Json} (hfixed : ops.lookup "value" = some fixed)
    (hne : fixed ≠ .null) (hadd : addItems ops (fixValue ops value) = .ok v₁)
    (hret : retainSubset ops (useDefault ops v₁) = .ok v₂) : v₂ = some fixed := by
  have hfix : fixValue ops value = some fixed := by simp [fixValue, hfixed, hne]
  rw [hfix] at hadd
  have h₁ : v₁ = some fixed := by
    obtain ⟨-, rfl⟩ | ⟨items, list, hit, hls, rfl⟩ := addItems_cases hadd
    · rfl
    · obtain ⟨array, items', rfl, hi, hsub⟩ := hv.valueAdd _ _ hfixed hit
      cases hi
      cases hls
      rw [union_eq_self hsub]
  subst h₁
  obtain ⟨-, rfl⟩ | ⟨allowed, list, halw, hls, rfl⟩ := retainSubset_cases hret
  · rfl
  · obtain ⟨array, rfl, hsub⟩ := hv.valueSubset _ _ hfixed halw
    cases Option.some.inj hls
    rw [List.filter_eq_self.2 fun item hi => by simpa using hsub allowed rfl item hi]

/-- What was added is still there after the items that are not allowed were dropped. -/
theorem added_stay {items : Json} (hit : ops.lookup "add" = some items)
    (hadd : addItems ops value = .ok v₁) (hret : retainSubset ops (useDefault ops v₁) = .ok v₂) :
    Operator.add.Holds items v₂ := by
  obtain ⟨hno, -⟩ | ⟨items', list, hi, -, rfl⟩ := addItems_cases hadd
  · cases hit.symm.trans hno
  · cases hit.symm.trans hi
    obtain ⟨-, rfl⟩ | ⟨allowed, list', halw, hls', rfl⟩ := retainSubset_cases hret
    · exact ⟨items', _, rfl, rfl, fun item hmem => mem_union.2 (.inr hmem)⟩
    · cases Option.some.inj hls'
      obtain ⟨_, _, ha, hs, hsub⟩ := hv.addSubset _ _ hit halw
      cases ha
      cases hs
      refine ⟨items', _, rfl, rfl, fun item hmem => List.mem_filter.2 ⟨?_, ?_⟩⟩
      · exact mem_union.2 (.inr hmem)
      · simpa using hsub item hmem

end

theorem checkOneOf_holds (h : checkOneOf ops value = .ok ())
    (hop : ops.lookup "one_of" = some operand) : Operator.oneOf.Holds operand value := by
  rintro _ rfl
  simp only [checkOneOf, hop, refuseIf_ok, not_not] at h
  obtain ⟨items, hi, hmem⟩ := h
  exact ⟨items, Json.asArray_eq_some.1 hi, hmem⟩

theorem checkSuperset_holds (h : checkSuperset ops value = .ok ())
    (hop : ops.lookup "superset_of" = some operand) : Operator.supersetOf.Holds operand value := by
  rintro _ rfl
  simp only [checkSuperset, hop, bind_ok, okOr_ok, Json.asArray_eq_some, refuseIf_ok, not_not] at h
  obtain ⟨list, rfl, items, hi, hsub⟩ := h
  exact ⟨items, list, Json.asArray_eq_some.1 hi, rfl, hsub⟩

/-- **Later operators do not undo earlier ones.**  The value computed for a parameter satisfies
every operator of its validated policy. -/
theorem parameterValue_holds {v : Option Json} (hv : ValidOperators ops)
    (h : parameterValue ops value = .ok v) (op : Operator) (operand : Json)
    (hop : ops.lookup op.key = some operand) : op.Holds operand v := by
  simp only [parameterValue, bind_ok, refuseIf_ok, pure_ok] at h
  obtain ⟨v₁, hadd, _, hone, v₂, hret, _, hsup, _, hess, rfl⟩ := h
  cases op with
  | value =>
    by_cases hnu : operand = .null
    · subst hnu
      rw [removed_stays hv hop hadd hret]
      rfl
    · rw [fixed_stays hv hop hnu hadd hret]
      exact (if_neg hnu).symm
  | add => exact added_stay hv hop hadd hret
  | default =>
    -- the default stands in for an absent value, and dropping items leaves an array
    obtain ⟨-, rfl⟩ | ⟨_, _, -, -, rfl⟩ := retainSubset_cases hret
    · cases v₁ with
      | none =>
        have : useDefault ops none = some operand := hop
        simp [Operator.Holds, this]
      | some => simp [Operator.Holds, useDefault]
    · simp [Operator.Holds]
  | oneOf =>
    obtain ⟨-, rfl⟩ | ⟨allowed, _, halw, -, -⟩ := retainSubset_cases hret
    · exact checkOneOf_holds hone hop
    · exact (hv.oneOfAlone _ _ hop halw).elim
  | subsetOf =>
    rintro x rfl
    obtain ⟨hno | hno, h⟩ | ⟨allowed, list, halw, -, h⟩ := retainSubset_cases hret
    · rw [show Operator.subsetOf.key = "subset_of" from rfl, hno] at hop
      cases hop
    · rw [hno] at h
      cases h
    · cases hop.symm.trans halw
      refine ⟨allowed, _, rfl, Option.some.inj h, fun item hi => ?_⟩
      simpa using (List.mem_filter.1 hi).2
  | supersetOf => exact checkSuperset_holds hsup hop
  | essential =>
    rintro rfl rfl
    exact hess ⟨rfl, hop⟩

/-- How a value stands in the resolved metadata: as it is, or, for a `scope` array, as one string
with a space between the items. -/
inductive Renders (name : String) : Option Json → Option Json → Prop
  | same (v : Option Json) : Renders name v v
  | scope (words : List String) (h : name = "scope") :
      Renders name (some (.arr (words.map .str))) (some (.str (Text.join " " words)))

theorem writeParameter_renders {stored : Option Json} (h : writeParameter name value = .ok stored) :
    Renders name value stored := by
  unfold writeParameter at h
  split at h
  · rename_i items
    split_ifs at h with hnm
    · simp only [bind_ok, pure_ok] at h
      obtain ⟨words, hwor, rfl⟩ := h
      have : strings (.arr items) "scope policy value" = .ok words := by
        simpa [strings] using hwor
      rw [strings_ok this]
      exact .scope words hnm
    · obtain rfl := pure_ok.1 h
      exact .same _
  · obtain rfl := pure_ok.1 h
    exact .same _

/-- The collected policy of a parameter holds of the metadata. -/
def ParameterHolds (e : String × Json) (fields : Object) : Prop :=
  ∀ operators : Object, e.2 = .obj operators → ∃ v, Renders e.1 v (fields.lookup e.1) ∧
    ∀ op operand, operators.lookup (Operator.key op) = some operand → op.Holds operand v

theorem applyParameter_lookup_of_ne (h : applyParameter fields e = .ok fields') (hne : name ≠ e.1) :
    fields'.lookup name = fields.lookup name := by
  simp only [applyParameter, bind_ok, pure_ok] at h
  obtain ⟨_, -, _, -, stored, -, rfl⟩ := h
  cases stored with
  | none => exact lookup_erase_of_ne _ hne
  | some => exact lookup_insert_of_ne _ _ hne

theorem applyParameter_holds (h : applyParameter fields e = .ok fields') (he : e.2 = .obj ops)
    (hok : validateOperators ops = .ok ()) : ParameterHolds e fields' := by
  simp only [applyParameter, object, bind_ok, okOr_ok, Json.asObject_eq_some, pure_ok] at h
  obtain ⟨operators', he', v, hval, stored, hsto, rfl⟩ := h
  cases he.symm.trans he'
  intro operators₀ he₀
  cases he.symm.trans he₀
  refine ⟨v, ?_, parameterValue_holds (validOperators_of_ok hok) hval⟩
  have hre := writeParameter_renders hsto
  cases stored with
  | none => simpa using hre
  | some => simpa using hre

theorem applyParameters_holds (hm : WellMerged parameters)
    (h : parameters.foldlM applyParameter fields = .ok fields') :
    ∀ e ∈ parameters, ParameterHolds e fields' := by
  refine foldlM_each (I := fun _ => True) h trivial (fun _ _ _ _ _ _ => trivial) ?_ ?_
  · intro e he s s' _ hst
    obtain ⟨ops, heq, hok⟩ := hm.valid e he
    exact applyParameter_holds hst heq hok
  · refine hm.sorted.pairwise_ne.imp fun hne s s' _ hst hs ops heq => ?_
    rw [applyParameter_lookup_of_ne hst hne]
    exact hs ops heq

/-- The collected policy of an entity type holds of the metadata, when the metadata has the
type. -/
def EntityTypeHolds (e : String × Json) (metadata : Object) : Prop :=
  ∀ parameters, e.2 = .obj parameters → ∀ value, metadata.lookup e.1 = some value →
    ∃ fields, value = .obj fields ∧ ∀ p ∈ parameters, ParameterHolds p fields

theorem applyEntityType_lookup_of_ne {entityType : String}
    (h : applyEntityType metadata e = .ok metadata') (hne : entityType ≠ e.1) :
    metadata'.lookup entityType = metadata.lookup entityType := by
  unfold applyEntityType at h
  split at h
  · obtain rfl := pure_ok.1 h
    rfl
  · simp only [bind_ok, pure_ok] at h
    obtain ⟨_, -, _, -, _, -, rfl⟩ := h
    exact lookup_insert_of_ne _ _ hne

theorem applyEntityType_holds (h : applyEntityType metadata e = .ok metadata')
    (he : e.2 = .obj parameters) (hm : WellMerged parameters) : EntityTypeHolds e metadata' := by
  intro parameters₀ he₀ value hval
  cases he.symm.trans he₀
  unfold applyEntityType at h
  split at h
  · rename_i hno
    obtain rfl := pure_ok.1 h
    cases hno.symm.trans hval
  · simp only [object, bind_ok, okOr_ok, Json.asObject_eq_some, pure_ok] at h
    obtain ⟨fields, -, parameters', he', fields', hfld, rfl⟩ := h
    cases he.symm.trans he'
    rw [lookup_insert_self] at hval
    exact ⟨fields', (Option.some.inj hval).symm, applyParameters_holds hm hfld⟩

theorem applyPolicy_holds (hc : WellCombined policy)
    (h : applyPolicy policy metadata = .ok metadata') :
    ∀ e ∈ policy, EntityTypeHolds e metadata' := by
  refine foldlM_each (I := fun _ => True) h trivial (fun _ _ _ _ _ _ => trivial) ?_ ?_
  · intro e he s s' _ hst
    obtain ⟨parameters, heq, hm⟩ := hc.merged e he
    exact applyEntityType_holds hst heq hm
  · refine hc.sorted.pairwise_ne.imp fun hne s s' _ hst hs parameters heq value hval => ?_
    rw [applyEntityType_lookup_of_ne hst hne] at hval
    exact hs parameters heq value hval

/-! ### Resolution -/

variable {statement : Statement}

theorem mem_subordinates {index : ℕ} :
    (statement, index) ∈ subordinates chain ↔
      0 < index ∧ index + 1 < chain.length ∧ chain[index]? = some statement := by
  simp only [subordinates, List.mem_iff_getElem?, List.getElem?_drop, List.getElem?_take,
    List.getElem?_zipIdx]
  constructor
  · rintro ⟨i, hi⟩
    split_ifs at hi
    simp only [Option.map_eq_some_iff] at hi
    obtain ⟨s, hs, rfl, rfl⟩ := hi
    refine ⟨by omega, by omega, ?_⟩
    simpa using hs
  · rintro ⟨hpos, hlt, hs⟩
    refine ⟨index - 1, ?_⟩
    have hidx : 1 + (index - 1) = index := by omega
    rw [hidx, if_pos (by omega), hs]
    simp

/-- A demand that a subordinate statement of the chain makes. -/
def Imposes (chain : List Statement) (d : Demand) : Prop :=
  ∃ index statement policy, 0 < index ∧ index + 1 < chain.length ∧
    chain[index]? = some statement ∧
    statement.claims.other.lookup "metadata_policy" = some (.obj policy) ∧ PolicyImposes policy d

theorem collectPolicy_covers {combined combined' : Object}
    (hc : WellCombined combined) (h : collectPolicy combined statement = .ok combined') :
    WellCombined combined' ∧ (∀ d, CoversType combined d → CoversType combined' d) ∧
    ∀ d policy, statement.claims.other.lookup "metadata_policy" = some (.obj policy) →
      PolicyImposes policy d → CoversType combined' d := by
  unfold collectPolicy at h
  cases hpol : lookup statement.claims.other "metadata_policy" with
  | none =>
    simp only [hpol, pure_ok] at h
    subst h
    exact ⟨hc, fun _ => id, by simp⟩
  | some =>
    simp only [hpol, object, bind_ok, okOr_ok, Json.asObject_eq_some] at h
    obtain ⟨_, rfl, hmrg⟩ := h
    obtain ⟨hc', hold, hnew⟩ := mergePolicy_covers hc hmrg
    refine ⟨hc', hold, ?_⟩
    rintro d _ ⟨⟩ himp
    exact hnew d himp

variable {parseUrl : UrlParser}

/-- The combined policy of a chain covers every demand of every subordinate statement. -/
theorem resolveStep_covers {state state' : Object × Object} (hc : WellCombined state.2)
    (h : (subordinates chain).reverse.foldlM (resolveStep parseUrl chain) state = .ok state') :
    WellCombined state'.2 ∧ ∀ d, Imposes chain d → CoversType state'.2 d := by
  obtain ⟨hc', -, hnew⟩ := foldlM_grows (I := fun s => WellCombined s.2)
    (C := fun (s : Object × Object) d => CoversType s.2 d)
    (G := fun (e : Statement × ℕ) d => ∃ policy,
      e.1.claims.other.lookup "metadata_policy" = some (.obj policy) ∧ PolicyImposes policy d) h hc
    (by
      intro _ _ _ _ hs hst
      simp only [resolveStep, bind_ok, pure_ok] at hst
      obtain ⟨_, -, _, hco, rfl⟩ := hst
      obtain ⟨hs', hold, hnew⟩ := collectPolicy_covers hs hco
      refine ⟨hs', hold, ?_⟩
      rintro d ⟨policy, hp, himp⟩
      exact hnew d policy hp himp)
  refine ⟨hc', ?_⟩
  rintro d ⟨index, statement, policy, hpos, hlt, hs, hp, himp⟩
  exact hnew (statement, index) (List.mem_reverse.2 (mem_subordinates.2 ⟨hpos, hlt, hs⟩)) d
    ⟨policy, hp, himp⟩

/-- Resolution applies to the metadata a combined policy that covers every demand. -/
theorem resolve_cases {metadata : Json} (h : resolve parseUrl chain = .ok metadata) :
    ∃ combined types types', WellCombined combined ∧
    (∀ d, Imposes chain d → CoversType combined d) ∧
    applyPolicy combined types = .ok types' ∧ metadata = .obj types' := by
  unfold resolve at h
  split at h
  · simp only [bind_ok, pure_ok] at h
    obtain ⟨_, -, _, -, _, -, _, -, _, -, _, -, state, hst, types', happ, rfl⟩ := h
    obtain ⟨hc, hcov⟩ := resolveStep_covers wellCombined_nil hst
    exact ⟨state.2, state.1, types', hc, hcov, happ, rfl⟩
  · cases h

/-- **No inferior loosens what a superior imposed.**  In the metadata resolved from an accepted
chain of any length, every parameter of every entity type that is still there has a value that
satisfies every operator any subordinate statement imposed on it. -/
theorem resolve_holds (parseUrl : UrlParser) (chain : List Statement) (metadata : Json)
    (h : resolve parseUrl chain = .ok metadata) (entityType name : String) (fields : Json)
    (htype : metadata.member entityType = some fields) :
    ∃ v, Renders name v (fields.member name) ∧
    ∀ op operand, Imposes chain ⟨entityType, name, op, operand⟩ → op.Holds operand v := by
  obtain ⟨_, _, _, hc, hcov, happ, rfl⟩ := resolve_cases h
  by_cases hdem : ∃ op operand, Imposes chain ⟨entityType, name, op, operand⟩
  · obtain ⟨op, operand, himp⟩ := hdem
    obtain ⟨parameters, hps, ops, hops, -⟩ := hcov _ himp
    have hhl := applyPolicy_holds hc happ _ (mem_of_lookup hps)
    obtain ⟨_, rfl, hfld⟩ := hhl parameters rfl fields htype
    obtain ⟨v, hv, hall⟩ :=
      hfld _ (mem_of_lookup hops) ops rfl
    refine ⟨v, hv, fun op' operand' himp' => ?_⟩
    obtain ⟨_, hp₁, _, ho₁, new, hnew, htig⟩ := hcov _ himp'
    cases Option.some.inj (hps.symm.trans hp₁)
    cases Option.some.inj (hops.symm.trans ho₁)
    exact (hall op' new hnew).mono htig
  · exact ⟨fields.member name, .same _, fun op operand himp => (hdem ⟨op, operand, himp⟩).elim⟩

/-! ### Chains to evaluate -/

/-- A statement with only the claims that resolution reads. -/
def bareStatement (iss sub : String) (metadata : Option Json) (other : Object) : Statement where
  token := { typ := none, kid := none, header := none, payload := none, signingInput := "",
             signature := [] }
  claims := { iss, sub, iat := 0, exp := 1, jwks := .null, authorityHints := none, metadata, other }

/-- A policy with operators on one parameter of one entity type. -/
def policyOn (entityType name : String) (operators : Object) : Object :=
  [("metadata_policy", .obj [(entityType, .obj [(name, .obj operators)])])]

/-- The anchor bounds the contacts, the intermediate adds one. -/
def contactsChain : List Statement :=
  [bareStatement "leaf" "leaf" (some (.obj [("openid_relying_party", .obj [("contacts",
      .arr [.str "ops", .str "press"])])])) [],
    bareStatement "mid" "leaf" none (policyOn "openid_relying_party" "contacts"
      [("add", .arr [.str "noc"])]),
    bareStatement "anchor" "mid" none (policyOn "openid_relying_party" "contacts"
      [("essential", .bool true), ("subset_of", .arr [.str "noc", .str "ops"])]),
    bareStatement "anchor" "anchor" none []]

theorem resolve_holds_contacts :
    resolve (fun _ => none) contactsChain = .ok (.obj [("openid_relying_party",
      .obj [("contacts", .arr [.str "ops", .str "noc"])])]) ∧
    ∃ v, Renders "contacts" v (some (.arr [.str "ops", .str "noc"])) ∧
    ∀ op operand, Imposes contactsChain ⟨"openid_relying_party", "contacts", op, operand⟩ →
      op.Holds operand v :=
  ⟨by rfl, resolve_holds (fun _ => none) contactsChain _ (by rfl) "openid_relying_party" "contacts"
    (.obj [("contacts", .arr [.str "ops", .str "noc"])]) (by rfl)⟩

/-- The leaf publishes no `openid_provider` metadata, the policy demands a parameter of it. -/
def skippedTypeChain : List Statement :=
  [bareStatement "leaf" "leaf" (some (.obj [("openid_relying_party", .obj [])])) [],
    bareStatement "anchor" "leaf" none (policyOn "openid_provider" "contacts"
      [("essential", .bool true)]),
    bareStatement "anchor" "anchor" none []]

/-- The policy fixes `scope` to an array. -/
def scopeChain : List Statement :=
  [bareStatement "leaf" "leaf" (some (.obj [("openid_relying_party", .obj [])])) [],
    bareStatement "anchor" "leaf" none (policyOn "openid_relying_party" "scope"
      [("value", .arr [.str "openid", .str "email"])]),
    bareStatement "anchor" "anchor" none []]

theorem imposes_policyOn {iss sub entityType : String} (op : Operator) (hlen : 2 < chain.length)
    (h : chain[1]? =
      some (bareStatement iss sub none (policyOn entityType name [(op.key, operand)]))) :
    Imposes chain ⟨entityType, name, op, operand⟩ :=
  ⟨1, _, [(entityType, .obj [(name, .obj [(op.key, operand)])])], by simp, hlen, h, rfl,
    [(name, .obj [(op.key, operand)])], by simp, [(op.key, operand)], by simp,
    List.mem_singleton_self _⟩

/-- Two demands that the resolved metadata does not meet to the letter: one on an entity type the
leaf does not have, which is skipped, and a `scope` array, which is written as a string. -/
theorem resolve_skips_absent_type_and_joins_scope :
    (∃ metadata, resolve (fun _ => none) skippedTypeChain = .ok metadata ∧
      Imposes skippedTypeChain ⟨"openid_provider", "contacts", .essential, .bool true⟩ ∧
      (metadata.member "openid_provider").bind (·.member "contacts") = none) ∧
    ∃ metadata fields, resolve (fun _ => none) scopeChain = .ok metadata ∧
    Imposes scopeChain ⟨"openid_relying_party", "scope", .value,
      .arr [.str "openid", .str "email"]⟩ ∧ metadata.member "openid_relying_party" = some fields ∧
    fields.member "scope" = some (.str "openid email") ∧
    fields.member "scope" ≠ some (.arr [.str "openid", .str "email"]) := by
  refine ⟨⟨.obj [("openid_relying_party", .obj [])], by rfl, ?_, by rfl⟩,
    .obj [("openid_relying_party", .obj [("scope", .str "openid email")])],
    .obj [("scope", .str "openid email")], by rfl, ?_, by rfl, by rfl, by decide⟩
  · exact imposes_policyOn .essential (by decide) rfl
  · exact imposes_policyOn .value (by decide) rfl

end AsteriusIdp.Federation
