import AsteriusIdp.Federation.PolicySound
import AsteriusIdp.Json.Serde
import AsteriusIdp.Lib.Accumulator

/-!
# The order of the merged policies

The statements of a chain are merged from the anchor downwards, and each merge is checked on its
own.  The order does not matter: an operand stands for a set of marks (`Operator.Marks`), merging
two operands unites their marks, and every check of `validateOperators` is one on the marks
(`validateOperators_ok`) that smaller sets of marks pass as well.  So each level of the merge is
an `Accumulator`: `entryMerge`, `operatorsMerge`, `parameterMerge`, `entityMerge` and `policyMerge`.

Marks do not see how often an array has an item.  The merge does not look at it either, and keeps
the repetitions of the array that came first (`mergeAll_repeated`).

* `mergeAll_perm` : every order fails, or every order returns the same policy up to the order and
  the repetition of array items, and up to the order alone if no array repeats an item; merging a
  policy again changes nothing.
-/

namespace AsteriusIdp.Federation

open Fallible Entries Accumulator

/-! ### The marks of an operand -/

/-- What an operand says: its operator is used, an item is in its demand, an item is outside of
what it allows. -/
inductive Mark where
  | used
  | includes (item : Json)
  | excludes (item : Json)

/-- The items of an array. -/
def items (operand : Json) : List Json := operand.asArray.getD []

@[simp] theorem items_arr (l : List Json) : items (.arr l) = l := rfl

namespace Operator

/-- The item is in what the operand demands. -/
def Includes : Operator → Json → Json → Prop
  | value, operand, x | default, operand, x => x = operand
  | essential, operand, x => operand = .bool true ∧ x = operand
  | add, operand, x | supersetOf, operand, x => x ∈ items operand
  | oneOf, _, _ | subsetOf, _, _ => False

/-- The item is outside of what the operand allows. -/
def Excludes : Operator → Json → Json → Prop
  | oneOf, operand, x | subsetOf, operand, x => x ∉ items operand
  | value, _, _ | default, _, _ | essential, _, _ | add, _, _ | supersetOf, _, _ => False

/-- The marks of an operand. -/
def Marks (op : Operator) (operand : Json) : Mark → Prop
  | .used => True
  | .includes x => op.Includes operand x
  | .excludes x => op.Excludes operand x

end Operator

/-- The marks of the operators of a parameter. -/
def marks (operators : Object) : Set (Operator × Mark) :=
  {d | ∃ operand, operators.lookup d.1.key = some operand ∧ d.1.Marks operand d.2}

variable {op : Operator} {operand current next v w : Json} {old : Object}
  {entry : String × Json} {ops : Object}

theorem used_mem_marks : (op, .used) ∈ marks ops ↔ ops.contains op.key := by
  simp [marks, Operator.Marks, contains, Option.isSome_iff_exists]

theorem includes_mem_marks {x : Json} :
    (op, .includes x) ∈ marks ops ↔
      ∃ operand, ops.lookup op.key = some operand ∧ op.Includes operand x := Iff.rfl

theorem excludes_mem_marks {x : Json} :
    (op, .excludes x) ∈ marks ops ↔
      ∃ operand, ops.lookup op.key = some operand ∧ op.Excludes operand x := Iff.rfl

/-! ### Validation in terms of marks -/

theorem strings_arr (l : List String) (what : String) :
    strings (.arr (l.map .str)) what = .ok l := by
  simp only [strings, bind_ok, okOr_ok, mapM_ok]
  refine ⟨_, rfl, List.forall₂_map_left_iff.2 (List.forall₂_same.2 fun s _ => ?_)⟩
  exact Json.asStr_eq_some.2 rfl

section

variable (hop : op ∈ [Operator.add, .oneOf, .subsetOf, .supersetOf])
include hop

/-- The operand of an array operator is an array of strings. -/
theorem exists_arr_of_validateOperand (h : validateOperand op.key operand = .ok ()) :
    ∃ l : List String, operand = .arr (l.map .str) := by
  simp only [validateOperand, Operator.ofKey_key] at h
  cases op with
  | value | default | essential => simp at hop
  | add | oneOf | subsetOf | supersetOf =>
    simp only [bind_ok] at h
    obtain ⟨l, hl, -⟩ := h
    exact ⟨l, strings_ok hl⟩

theorem exists_arrs_of_validateOperand
    (h : validateOperand op.key v = .ok ()) (h' : validateOperand op.key w = .ok ()) :
    ∃ l l' : List String, v = .arr (l.map .str) ∧ w = .arr (l'.map .str) := by
  obtain ⟨l, hl⟩ := exists_arr_of_validateOperand hop h
  obtain ⟨l', hl'⟩ := exists_arr_of_validateOperand hop h'
  exact ⟨l, l', hl, hl'⟩

theorem validateOperand_arr
    (l : List String) : validateOperand op.key (.arr (l.map .str)) = .ok () := by
  simp only [validateOperand]
  cases op with
  | value | default | essential => simp at hop
  | add | oneOf | subsetOf | supersetOf =>
    rw [strings_arr]
    rfl

end

theorem exists_map_of_union (l l' : List String) :
    ∃ merged : List String, union (l.map .str) (l'.map .str) = merged.map .str := by
  induction l' generalizing l with
  | nil => exact ⟨l, rfl⟩
  | cons s l' ih =>
    by_cases hs : Json.str s ∈ l.map Json.str
    · obtain ⟨merged, hmrg⟩ := ih l
      refine ⟨merged, ?_⟩
      rw [← hmrg]
      simp only [union, List.map_cons, List.foldl_cons, if_pos hs]
    · obtain ⟨merged, hmrg⟩ := ih (l ++ [s])
      refine ⟨merged, ?_⟩
      rw [← hmrg]
      simp only [union, List.map_cons, List.foldl_cons, if_neg hs, List.map_append, List.map_nil]

theorem exists_bool_of_validateOperand
    (h : validateOperand (Operator.key .essential) operand = .ok ()) : ∃ b, operand = .bool b := by
  simp only [validateOperand, Operator.ofKey_key] at h
  cases operand <;> simp_all [Json.asBool]

/-- The marks of one parameter do not contradict each other. -/
structure Agree (s : Set (Operator × Mark)) : Prop where
  value_unique : ∀ v w, (.value, .includes v) ∈ s → (.value, .includes w) ∈ s → v = w
  default_unique : ∀ v w, (.default, .includes v) ∈ s → (.default, .includes w) ∈ s → v = w
  oneOf_left : (.oneOf, .used) ∈ s → ∃ x, (.oneOf, .excludes x) ∉ s
  oneOf_alone : (.oneOf, .used) ∈ s →
    (.add, .used) ∉ s ∧ (.subsetOf, .used) ∉ s ∧ (.supersetOf, .used) ∉ s
  superset_in_subset : ∀ x, (.supersetOf, .includes x) ∈ s → (.subsetOf, .excludes x) ∉ s
  add_in_subset : ∀ x, (.add, .includes x) ∈ s → (.subsetOf, .excludes x) ∉ s
  null_default : (.value, .includes .null) ∈ s → (.default, .used) ∉ s
  null_essential : (.value, .includes .null) ∈ s → (.essential, .includes (.bool true)) ∉ s
  value_oneOf : ∀ v, (.value, .includes v) ∈ s → (.oneOf, .excludes v) ∉ s
  value_add : ∀ v, (.value, .includes v) ∈ s → (.add, .used) ∈ s →
    ∃ l, v = .arr l ∧ ∀ x, (.add, .includes x) ∈ s → x ∈ l
  value_subset : ∀ v, (.value, .includes v) ∈ s → (.subsetOf, .used) ∈ s →
    ∃ l, v = .arr l ∧ ∀ x ∈ l, (.subsetOf, .excludes x) ∉ s
  value_superset : ∀ v, (.value, .includes v) ∈ s → (.supersetOf, .used) ∈ s →
    ∃ l, v = .arr l ∧ ∀ x, (.supersetOf, .includes x) ∈ s → x ∈ l

/-- Fewer marks contradict each other less. -/
theorem isLowerSet_agree : IsLowerSet {s | Agree s} := by
  intro _ _ hts hs
  refine ⟨fun v w hv hw => hs.value_unique v w (hts hv) (hts hw),
    fun v w hv hw => hs.default_unique v w (hts hv) (hts hw), fun h => ?_, fun h => ?_,
    fun x hx hx' => hs.superset_in_subset x (hts hx) (hts hx'),
    fun x hx hx' => hs.add_in_subset x (hts hx) (hts hx'),
    fun h h' => hs.null_default (hts h) (hts h'), fun h h' => hs.null_essential (hts h) (hts h'),
    fun v hv hv' => hs.value_oneOf v (hts hv) (hts hv'), fun v hv h => ?_, fun v hv h => ?_,
    fun v hv h => ?_⟩
  · obtain ⟨x, hx⟩ := hs.oneOf_left (hts h)
    exact ⟨x, fun h' => hx (hts h')⟩
  · obtain ⟨h₁, h₂, h₃⟩ := hs.oneOf_alone (hts h)
    exact ⟨fun h' => h₁ (hts h'), fun h' => h₂ (hts h'), fun h' => h₃ (hts h')⟩
  · obtain ⟨l, rfl, hl⟩ := hs.value_add v (hts hv) (hts h)
    exact ⟨l, rfl, fun x hx => hl x (hts hx)⟩
  · obtain ⟨l, rfl, hl⟩ := hs.value_subset v (hts hv) (hts h)
    exact ⟨l, rfl, fun x hx hx' => hl x hx (hts hx')⟩
  · obtain ⟨l, rfl, hl⟩ := hs.value_superset v (hts hv) (hts h)
    exact ⟨l, rfl, fun x hx => hl x (hts hx)⟩

section Checks

variable {ops : Object}
  (hoperands : ∀ op v, ops.lookup (Operator.key op) = some v →
    validateOperand op.key v = .ok ())

theorem checkOneOfAlone_ok {u : Unit} : checkOneOfAlone ops = .ok u ↔
    ((.oneOf, .used) ∈ marks ops → (.add, .used) ∉ marks ops ∧
      (.subsetOf, .used) ∉ marks ops ∧ (.supersetOf, .used) ∉ marks ops) := by
  simp only [checkOneOfAlone, used_mem_marks, Operator.key]
  simp

variable {v : Json}

theorem value_mem_marks : (.value, .includes v) ∈ marks ops ↔ ops.lookup "value" = some v := by
  simp [includes_mem_marks, Operator.Includes, Operator.key]

theorem default_mem_marks :
    (.default, .includes v) ∈ marks ops ↔ ops.lookup "default" = some v := by
  simp [includes_mem_marks, Operator.Includes, Operator.key]

theorem essential_mem_marks : (.essential, .includes (.bool true)) ∈ marks ops ↔
    ops.lookup "essential" = some (.bool true) := by
  simp [includes_mem_marks, Operator.Includes, Operator.key]

include hoperands

theorem lookup_array (n : String) (hn : n ∈ ["add", "one_of", "subset_of", "superset_of"]) :
    ops.lookup n = none ∨ ∃ l : List String, ops.lookup n = some (.arr (l.map .str)) := by
  cases hv : ops.lookup n with
  | none => exact .inl rfl
  | some v =>
    obtain ⟨op, hop, rfl⟩ : ∃ op ∈ [Operator.add, .oneOf, .subsetOf, .supersetOf],
        Operator.key op = n := by simpa [Operator.key, eq_comm] using hn
    obtain ⟨l, rfl⟩ := exists_arr_of_validateOperand hop (hoperands op v hv)
    exact .inr ⟨l, rfl⟩

theorem checkSupersetInSubset_ok : checkSupersetInSubset ops = .ok () ↔
    ∀ x, (.supersetOf, .includes x) ∈ marks ops → (.subsetOf, .excludes x) ∉ marks ops := by
  simp only [checkSupersetInSubset, includes_mem_marks, excludes_mem_marks, Operator.key]
  obtain hsub | ⟨_, hsub⟩ := lookup_array hoperands "subset_of" (by simp)
  · simp [hsub]
  · obtain hsup | ⟨_, hsup⟩ := lookup_array hoperands "superset_of" (by simp)
    · simp [hsup]
    · simp [hsub, hsup, strings_arr, Operator.Includes, Operator.Excludes, bind, Except.bind]

theorem checkAddInSubset_ok : checkAddInSubset ops = .ok () ↔
    ∀ x, (.add, .includes x) ∈ marks ops → (.subsetOf, .excludes x) ∉ marks ops := by
  simp only [checkAddInSubset, includes_mem_marks, excludes_mem_marks, Operator.key]
  obtain hadd | ⟨_, hadd⟩ := lookup_array hoperands "add" (by simp)
  · simp [hadd]
  · obtain hsub | ⟨_, hsub⟩ := lookup_array hoperands "subset_of" (by simp)
    · simp [hsub]
    · simp [hadd, hsub, strings_arr, Operator.Includes, Operator.Excludes, bind, Except.bind]

theorem checkValueOneOf_ok : checkValueOneOf ops v = .ok () ↔
    (.oneOf, .excludes v) ∉ marks ops := by
  simp only [checkValueOneOf, excludes_mem_marks, Operator.key]
  obtain hone | ⟨_, hone⟩ := lookup_array hoperands "one_of" (by simp) <;>
    simp [hone, Operator.Excludes]

theorem checkValueAdd_ok : checkValueAdd ops v = .ok () ↔
    ((.add, .used) ∈ marks ops →
      ∃ l, v = .arr l ∧ ∀ x, (.add, .includes x) ∈ marks ops → x ∈ l) := by
  simp only [checkValueAdd, used_mem_marks, includes_mem_marks, Operator.key, contains]
  obtain hadd | ⟨_, hadd⟩ := lookup_array hoperands "add" (by simp) <;>
    simp [hadd, Operator.Includes]

theorem checkValueSubset_ok : checkValueSubset ops v = .ok () ↔
    ((.subsetOf, .used) ∈ marks ops →
      ∃ l, v = .arr l ∧ ∀ x ∈ l, (.subsetOf, .excludes x) ∉ marks ops) := by
  simp only [checkValueSubset, used_mem_marks, excludes_mem_marks, Operator.key, contains]
  obtain hsub | ⟨_, hsub⟩ := lookup_array hoperands "subset_of" (by simp) <;>
    simp [hsub, Operator.Excludes]

theorem checkValueSuperset_ok : checkValueSuperset ops v = .ok () ↔
    ((.supersetOf, .used) ∈ marks ops →
      ∃ l, v = .arr l ∧ ∀ x, (.supersetOf, .includes x) ∈ marks ops → x ∈ l) := by
  simp only [checkValueSuperset, used_mem_marks, includes_mem_marks, Operator.key, contains]
  obtain hsup | ⟨_, hsup⟩ := lookup_array hoperands "superset_of" (by simp) <;>
    simp [hsup, Operator.Includes]

/-- An allow-list that is not empty leaves an item over. -/
theorem oneOf_ne_nil_iff : ¬ops.lookup "one_of" = some (.arr []) ↔
    ((.oneOf, .used) ∈ marks ops → ∃ x, (.oneOf, .excludes x) ∉ marks ops) := by
  simp only [used_mem_marks, excludes_mem_marks, Operator.key, contains]
  obtain hone | ⟨l, hone⟩ := lookup_array hoperands "one_of" (by simp)
  · simp [hone]
  · simp only [Option.some.injEq, Json.arr.injEq, hone, Option.isSome_some, Operator.Excludes,
      items_arr, exists_eq_left', not_not, forall_const]
    simpa using ⟨List.exists_mem_of_ne_nil l, fun ⟨a, ha⟩ => List.ne_nil_of_mem ha⟩

omit hoperands in
theorem checkValue_ok {u : Unit} : checkValue ops = .ok u ↔
    ∀ v, (.value, .includes v) ∈ marks ops →
      (v = .null → (.default, .used) ∉ marks ops) ∧ checkValueOneOf ops v = .ok () ∧
      checkValueAdd ops v = .ok () ∧ checkValueSubset ops v = .ok () ∧
      checkValueSuperset ops v = .ok () ∧
      (v = .null → (.essential, .includes (.bool true)) ∉ marks ops) := by
  simp only [value_mem_marks]
  cases hval : lookup ops "value" <;>
    simp [checkValue, hval, essential_mem_marks, used_mem_marks, Operator.key, Unique.exists_iff]

omit hoperands in
/-- **Validation is a matter of marks**: the operands are well typed and their marks agree. -/
theorem validateOperators_ok :
    validateOperators ops = .ok () ↔
      (∀ e ∈ ops, validateOperand e.1 e.2 = .ok ()) ∧ Agree (marks ops) := by
  simp only [validateOperators, bind_ok, forM_ok, refuseIf_ok, exists_const]
  refine and_congr_right fun hall => ?_
  have hoperands : ∀ op v, ops.lookup (Operator.key op) = some v →
      validateOperand op.key v = .ok () :=
    fun op v hv => hall _ (mem_of_lookup hv)
  simp only [checkOneOfAlone_ok, checkSupersetInSubset_ok hoperands,
    checkValue_ok, checkValueOneOf_ok hoperands, checkValueAdd_ok hoperands,
    checkValueSubset_ok hoperands, checkValueSuperset_ok hoperands,
    checkAddInSubset_ok hoperands, oneOf_ne_nil_iff hoperands, exists_const]
  constructor
  · rintro ⟨haln, hsup, hval, hadd, hone⟩
    exact ⟨fun v w hv hw => Option.some.inj ((value_mem_marks.1 hv).symm.trans
        (value_mem_marks.1 hw)),
      fun v w hv hw => Option.some.inj ((default_mem_marks.1 hv).symm.trans
        (default_mem_marks.1 hw)),
      hone, haln, hsup, hadd, fun h => (hval _ h).1 rfl, fun h => (hval _ h).2.2.2.2.2 rfl,
      fun v hv => (hval v hv).2.1, fun v hv => (hval v hv).2.2.1,
      fun v hv => (hval v hv).2.2.2.1, fun v hv => (hval v hv).2.2.2.2.1⟩
  · intro h
    refine ⟨h.oneOf_alone, h.superset_in_subset, fun v hv => ?_, h.add_in_subset, h.oneOf_left⟩
    exact ⟨fun hnu => h.null_default (hnu ▸ hv), h.value_oneOf v hv, h.value_add v hv,
      h.value_subset v hv, h.value_superset v hv, fun hnu => h.null_essential (hnu ▸ hv)⟩

end Checks

/-! ### Merging in terms of marks -/

/-- Allow-lists are merged by what they share, of which a choice has to be left. -/
theorem mergeOperator_inter {l l' : List Json} {merged : Json}
    (hop : op = .oneOf ∨ op = .subsetOf) : mergeOperator op (.arr l) (.arr l') = .ok merged ↔
      (op = .oneOf → l.filter (· ∈ l') ≠ []) ∧ .arr (l.filter (· ∈ l')) = merged := by
  rcases hop with rfl | rfl <;> simp [mergeOperator]

section

variable (hcurrent : validateOperand op.key current = .ok ())
  (hnext : validateOperand op.key next = .ok ())
include hcurrent hnext

theorem mergeOperator_spec {merged : Json} (h : mergeOperator op current next = .ok merged) :
    validateOperand op.key merged = .ok () ∧ (op = .oneOf → merged ≠ .arr []) ∧
    ∀ mark, op.Marks merged mark ↔ op.Marks current mark ∨ op.Marks next mark := by
  cases op with
  | value | default =>
    simp only [mergeOperator, bind_ok, refuseIf_ok, not_not, pure_ok] at h
    obtain ⟨_, rfl, rfl⟩ := h
    exact ⟨hcurrent, by simp, fun mark => (or_self_iff).symm⟩
  | essential =>
    obtain ⟨b, rfl⟩ := exists_bool_of_validateOperand hcurrent
    obtain ⟨b', rfl⟩ := exists_bool_of_validateOperand hnext
    simp only [mergeOperator, pure_ok, Json.asBool] at h
    subst h
    refine ⟨rfl, by simp, fun mark => ?_⟩
    cases mark with
    | used => simp [Operator.Marks]
    | includes => cases b <;> cases b' <;> simp [Operator.Marks, Operator.Includes]
    | excludes => simp [Operator.Marks, Operator.Excludes]
  | add | supersetOf =>
    obtain ⟨l, l', rfl, rfl⟩ := exists_arrs_of_validateOperand (by simp) hcurrent hnext
    obtain rfl : .arr (union (l.map .str) (l'.map .str)) = merged := Except.ok.inj h
    obtain ⟨merged, hmrg⟩ := exists_map_of_union l l'
    refine ⟨?_, by simp, fun mark => ?_⟩
    · rw [hmrg]
      exact validateOperand_arr (by simp) merged
    · cases mark with
      | used => simp [Operator.Marks]
      | includes => simp [Operator.Marks, Operator.Includes]
      | excludes => simp [Operator.Marks, Operator.Excludes]
  | oneOf | subsetOf =>
    obtain ⟨l, l', rfl, rfl⟩ := exists_arrs_of_validateOperand (by simp) hcurrent hnext
    obtain ⟨hne, rfl⟩ := (mergeOperator_inter (by simp)).1 h
    refine ⟨?_, fun hop heq => hne hop (Json.arr.inj heq), fun mark => ?_⟩
    · rw [List.filter_map]
      exact validateOperand_arr (by simp) _
    · cases mark with
      | used => simp [Operator.Marks]
      | includes => simp [Operator.Marks, Operator.Includes]
      | excludes =>
        simp only [Operator.Marks, Operator.Excludes, items_arr, List.mem_filter, decide_eq_true_eq]
        tauto

/-- Operands merge unless a fixed value differs or nothing is left to choose from. -/
theorem mergeOperator_returns (hsm : op = .value ∨ op = .default → current = next)
    (hle : op = .oneOf → ∃ x, ¬op.Excludes current x ∧ ¬op.Excludes next x) :
    ∃ merged, mergeOperator op current next = .ok merged := by
  cases op with
  | value | default =>
    obtain rfl := hsm (by simp)
    exact ⟨current, by simp [mergeOperator]⟩
  | essential => exact ⟨_, rfl⟩
  | add | supersetOf =>
    obtain ⟨l, l', rfl, rfl⟩ := exists_arrs_of_validateOperand (by simp) hcurrent hnext
    exact ⟨_, rfl⟩
  | oneOf | subsetOf =>
    obtain ⟨l, l', rfl, rfl⟩ := exists_arrs_of_validateOperand (by simp) hcurrent hnext
    refine ⟨_, (mergeOperator_inter (by simp)).2 ⟨fun hop => ?_, rfl⟩⟩
    obtain ⟨x, hx, hx'⟩ := hle hop
    simp only [Operator.Excludes, not_not] at hx hx'
    exact List.ne_nil_of_mem (List.mem_filter.2 ⟨hx, by simpa using hx'⟩)

/-- An operand that adds no mark is merged without a change. -/
theorem mergeOperator_absorb (hle : op = .oneOf → current ≠ .arr [])
    (hsub : ∀ mark, op.Marks next mark → op.Marks current mark) :
    mergeOperator op current next = .ok current := by
  cases op with
  | value | default =>
    obtain rfl : next = current := hsub (.includes next) rfl
    simp [mergeOperator]
  | essential =>
    obtain ⟨b, rfl⟩ := exists_bool_of_validateOperand hcurrent
    obtain ⟨b', rfl⟩ := exists_bool_of_validateOperand hnext
    have hin := hsub (.includes (.bool true))
    cases b <;> cases b' <;>
      simp_all [mergeOperator, Operator.Marks, Operator.Includes, Json.asBool]
  | add | supersetOf =>
    obtain ⟨l, l', rfl, rfl⟩ := exists_arrs_of_validateOperand (by simp) hcurrent hnext
    have huni : union (l.map .str) (l'.map .str) = l.map .str :=
      union_eq_self fun x hx => hsub (.includes x) hx
    exact congrArg (Except.ok ∘ Json.arr) huni
  | oneOf | subsetOf =>
    obtain ⟨l, l', rfl, rfl⟩ := exists_arrs_of_validateOperand (by simp) hcurrent hnext
    have hfl : (l.map Json.str).filter (· ∈ l'.map Json.str) = l.map .str := by
      refine List.filter_eq_self.2 fun x hx => decide_eq_true ?_
      by_contra hno
      exact hsub (.excludes x) hno hx
    rw [mergeOperator_inter (by simp), hfl]
    exact ⟨fun hop heq => hle hop (by rw [heq]), rfl⟩

end

/-- The marks that an entry brings. -/
def entryMarks (entry : String × Json) : Set (Operator × Mark) :=
  {d | entry.1 = d.1.key ∧ d.1.Marks entry.2 d.2}

theorem marks_insert {merged : Json} (h : ∀ mark, op.Marks merged mark ↔
      (∃ previous, old.lookup op.key = some previous ∧ op.Marks previous mark) ∨
        op.Marks operand mark) :
    marks (old.insert op.key merged) = marks old ∪ entryMarks (op.key, operand) := by
  ext ⟨op', mark⟩
  simp only [marks, entryMarks, Set.mem_union, lookup_insert]
  by_cases hop : op' = op
  · subst hop
    simp [h]
  · have hkey : op'.key ≠ op.key := fun heq => hop (Operator.key_injective heq)
    simp [hkey, hkey.symm]

/-- Operators collected for a parameter: known, well typed, and with something to choose from. -/
structure Collected (operators : Object) : Prop where
  sorted : Entries.Sorted operators
  known : ∀ name v, operators.lookup name = some v → ∃ op, name = Operator.key op
  typed : ∀ op v, operators.lookup (Operator.key op) = some v →
    validateOperand op.key v = .ok ()
  choice : operators.lookup "one_of" ≠ some (.arr [])

/-- An entry that can be collected. -/
structure Collectable (entry : String × Json) : Prop where
  typed : validateOperand entry.1 entry.2 = .ok ()
  choice : entry ≠ ("one_of", .arr [])

theorem Collected.insert (h : Collected ops) (htyp : validateOperand op.key v = .ok ())
    (hcho : op = .oneOf → v ≠ .arr []) : Collected (ops.insert op.key v) := by
  refine ⟨h.sorted.insert _ _, fun name w hw => ?_, fun op' w hw => ?_, fun hone => ?_⟩
  · rw [lookup_insert] at hw
    split_ifs at hw with heq
    · exact ⟨op, heq⟩
    · exact h.known name w hw
  · rw [lookup_insert] at hw
    split_ifs at hw with heq
    · obtain rfl := Operator.key_injective heq
      exact Option.some.inj hw ▸ htyp
    · exact h.typed op' w hw
  · rw [lookup_insert] at hone
    split_ifs at hone with heq
    · have hop : Operator.key .oneOf = op.key := heq
      exact hcho (Operator.key_injective hop).symm (Option.some.inj hone)
    · exact h.choice hone

/-- The marks between which merging itself finds no conflict. -/
structure Compatible (s : Set (Operator × Mark)) : Prop where
  value : ∀ v w, (.value, .includes v) ∈ s → (.value, .includes w) ∈ s → v = w
  default : ∀ v w, (.default, .includes v) ∈ s → (.default, .includes w) ∈ s → v = w
  oneOf : (.oneOf, .used) ∈ s → ∃ x, (.oneOf, .excludes x) ∉ s

theorem isLowerSet_compatible : IsLowerSet {s | Compatible s} := by
  intro _ _ hts hs
  refine ⟨fun v w hv hw => hs.value v w (hts hv) (hts hw),
    fun v w hv hw => hs.default v w (hts hv) (hts hw), fun h => ?_⟩
  obtain ⟨x, hx⟩ := hs.oneOf (hts h)
  exact ⟨x, fun h' => hx (hts h')⟩

theorem Collected.compatible (h : Collected ops) :
    Compatible (marks ops) where
  value _ _ hv hw := Option.some.inj ((value_mem_marks.1 hv).symm.trans (value_mem_marks.1 hw))
  default _ _ hv hw :=
    Option.some.inj ((default_mem_marks.1 hv).symm.trans (default_mem_marks.1 hw))
  oneOf := (oneOf_ne_nil_iff h.typed).1 h.choice

theorem entry_cases (entry : String × Json) :
    (Operator.ofKey entry.1 = none ∧ entryMarks entry = ∅) ∨
      ∃ op v, entry = (Operator.key op, v) := by
  obtain ⟨name, v⟩ := entry
  cases hop : Operator.ofKey name with
  | none =>
    refine .inl ⟨rfl, Set.eq_empty_of_forall_notMem fun d hd => ?_⟩
    obtain ⟨rfl, -⟩ : name = d.1.key ∧ _ := hd
    simp at hop
  | some op =>
    obtain rfl := Operator.ofKey_eq_some.1 hop
    exact .inr ⟨op, v, rfl⟩

section

variable (hgood : Collected old) (hfit : Collectable entry)
include hgood hfit

theorem mergeEntry_spec {old' : Object} (h : mergeEntry old entry = .ok old') :
    Collected old' ∧ marks old' = marks old ∪ entryMarks entry := by
  obtain ⟨hno, hemp⟩ | ⟨op, v, rfl⟩ := entry_cases entry
  · simp only [mergeEntry, hno, pure_ok] at h
    subst h
    exact ⟨hgood, by rw [hemp, Set.union_empty]⟩
  · have hcho : op = .oneOf → v ≠ .arr [] := by
      rintro rfl rfl
      exact hfit.choice rfl
    cases hpv : lookup old op.key with
    | none =>
      simp only [mergeEntry, Operator.ofKey_key, hpv, pure_ok] at h
      subst h
      exact ⟨hgood.insert hfit.typed hcho, marks_insert fun mark => by simp [hpv]⟩
    | some previous =>
      simp only [mergeEntry, Operator.ofKey_key, hpv, bind_ok, pure_ok] at h
      obtain ⟨_, hmrg, rfl⟩ := h
      obtain ⟨htyp, hle, hmk⟩ :=
        mergeOperator_spec (hgood.typed op previous hpv) hfit.typed hmrg
      exact ⟨hgood.insert htyp hle, marks_insert fun mark => by simp [hpv, hmk]⟩

theorem mergeEntry_returns (hcm : Compatible (marks old ∪ entryMarks entry)) :
    ∃ old', mergeEntry old entry = .ok old' := by
  obtain ⟨hno, -⟩ | ⟨op, v, rfl⟩ := entry_cases entry
  · exact ⟨old, by simp [mergeEntry, hno]⟩
  · cases hpv : lookup old op.key with
    | none => exact ⟨_, by simp only [mergeEntry, Operator.ofKey_key, hpv]; rfl⟩
    | some previous =>
      have hold : ∀ mark, op.Marks previous mark →
          (op, mark) ∈ marks old ∪ entryMarks (op.key, v) :=
        fun mark hm => .inl ⟨previous, hpv, hm⟩
      have hnew : ∀ mark, op.Marks v mark →
          (op, mark) ∈ marks old ∪ entryMarks (op.key, v) :=
        fun mark hm => .inr ⟨rfl, hm⟩
      obtain ⟨merged, hmrg⟩ :
          ∃ merged, mergeOperator op previous v = .ok merged := by
        refine mergeOperator_returns (hgood.typed op previous hpv) hfit.typed ?_ ?_
        · rintro (rfl | rfl)
          · exact hcm.value _ _ (hold (.includes previous) rfl) (hnew (.includes v) rfl)
          · exact hcm.default _ _ (hold (.includes previous) rfl) (hnew (.includes v) rfl)
        · rintro rfl
          obtain ⟨x, hx⟩ := hcm.oneOf (hold .used trivial)
          exact ⟨x, fun h => hx (hold (.excludes x) h), fun h => hx (hnew (.excludes x) h)⟩
      exact ⟨_, by simp only [mergeEntry, Operator.ofKey_key, hpv, hmrg]; rfl⟩

theorem mergeEntry_absorb
    (hsub : entryMarks entry ⊆ marks old) : mergeEntry old entry = .ok old := by
  obtain ⟨hno, -⟩ | ⟨op, v, rfl⟩ := entry_cases entry
  · simp [mergeEntry, hno]
  · have hus : op.Marks v .used := trivial
    obtain ⟨previous, hpv, -⟩ : (op, .used) ∈ marks old := hsub ⟨rfl, hus⟩
    have hmk : ∀ mark, op.Marks v mark → op.Marks previous mark := by
      intro mark hma
      obtain ⟨previous', hpv', hm⟩ : (op, mark) ∈ marks old := hsub ⟨rfl, hma⟩
      cases hpv.symm.trans hpv'
      exact hm
    have hle : op = .oneOf → previous ≠ .arr [] := by
      rintro rfl rfl
      exact hgood.choice hpv
    have hsm := mergeOperator_absorb (hgood.typed op previous hpv) hfit.typed hle hmk
    simp only [mergeEntry, Operator.ofKey_key, hpv, hsm, bind_ok, pure_ok,
      Except.ok.injEq, exists_eq_left']
    exact hgood.sorted.insert_of_lookup hpv

end

/-! ### The levels of a merge -/

/-- One operator merged into the operators of a parameter. -/
def entryMerge : Accumulator ChainError Object (String × Json) (Operator × Mark) where
  merge := mergeEntry
  Good := Collected
  Fit := Collectable
  Valid _ := True
  content := marks
  adds := entryMarks
  Consistent := Compatible
  lower := isLowerSet_compatible
  consistent := Collected.compatible
  returns hgood hfit _ hcons := mergeEntry_returns hgood hfit hcons
  spec hgood hfit h :=
    ⟨(mergeEntry_spec hgood hfit h).1, trivial, (mergeEntry_spec hgood hfit h).2⟩
  absorb hgood hfit _ hsub := mergeEntry_absorb hgood hfit hsub

/-- The operators of a statement merged into those of a parameter. -/
def operatorsMerge : Accumulator ChainError Object Object (Operator × Mark) :=
  entryMerge.fold.checked validateOperators validateOperators Entries.Sorted Agree isLowerSet_agree
    (fun operators hsorted hvalid => by
      refine ⟨fun e he => ⟨?_, ?_⟩, fun _ _ => trivial⟩
      · exact (validateOperators_ok.1 hvalid).1 e he
      · rintro rfl
        simp only [validateOperators, bind_ok, refuseIf_ok] at hvalid
        obtain ⟨_, -, _, -, _, -, _, -, _, -, hchoice⟩ := hvalid
        exact hchoice (hsorted.lookup_of_mem he))
    (fun operators hgood => by
      have hgood : Collected operators := hgood
      rw [validateOperators_ok, and_iff_right]
      · rfl
      · intro e he
        have hlookup := hgood.sorted.lookup_of_mem he
        obtain ⟨op, hop⟩ := hgood.known _ _ hlookup
        rw [hop] at hlookup ⊢
        exact hgood.typed op _ hlookup)

/-- The policy of a parameter, as a value. -/
def parameterMerge : Accumulator ChainError Json Json (Operator × Mark) :=
  operatorsMerge.view Json.asObject .obj (fun _ => rfl) Json.asObject
    (fun current incoming => do
      let operators ← object incoming "metadata parameter policy"
      validateOperators operators
      let existing ← okOr current.asObject (.invalid "metadata parameter policy")
      let existing ← operators.foldlM mergeEntry existing
      validateOperators existing
      pure (.obj existing))
    (fun current incoming merged => by
      simp only [object, operatorsMerge, Accumulator.checked, Accumulator.fold, entryMerge,
        bind_ok, okOr_ok, pure_ok]
      constructor
      · rintro ⟨operators, ho, _, hv, existing, he, existing', hm, _, hv', rfl⟩
        exact ⟨operators, ho, existing, he, existing', ⟨_, hv, existing', hm, _, hv', rfl⟩, rfl⟩
      · rintro ⟨operators, ho, existing, he, _, ⟨_, hv, existing', hm, _, hv', rfl⟩, rfl⟩
        exact ⟨operators, ho, _, hv, existing, he, existing', hm, _, hv', rfl⟩)

theorem collected_nil : Collected [] := by
  constructor <;> simp [Sorted.nil]

@[simp] theorem marks_nil : marks [] = ∅ := by
  simp [marks]

theorem agree_empty : Agree ∅ := by
  constructor <;> simp

theorem parameterMerge_good_nil : parameterMerge.Good (.obj []) := by
  have hagr : Agree (marks []) := marks_nil ▸ agree_empty
  exact ⟨[], rfl, collected_nil, hagr⟩

theorem parameterMerge_content_nil : parameterMerge.content (.obj []) = ∅ := by
  refine Set.eq_empty_of_forall_notMem ?_
  rintro d ⟨_, ho, hd⟩
  cases Json.asObject_eq_some.1 ho
  exact (marks_nil ▸ hd : d ∈ (∅ : Set (Operator × Mark)))

/-- The parameters of a statement merged into those of an entity type. -/
def fieldsMerge :
    Accumulator ChainError Object (String × Json) (String × Option (Operator × Mark)) :=
  parameterMerge.slot (.obj []) parameterMerge_good_nil parameterMerge_content_nil

theorem fieldsMerge_merge : fieldsMerge.merge = mergeParameter := by
  funext target entry
  simp [fieldsMerge, slot, slotMerge, parameterMerge, view, mergeParameter]

/-- The policy of an entity type, as a value. -/
def entityMerge : Accumulator ChainError Json Json (String × Option (Operator × Mark)) :=
  fieldsMerge.fold.view Json.asObject .obj (fun _ => rfl) Json.asObject
    (fun current incoming => do
      let fields ← object incoming "metadata_policy entity type"
      let target ← okOr current.asObject (.invalid "metadata_policy entity type")
      let target ← fields.foldlM mergeParameter target
      pure (.obj target))
    (fun current incoming merged => by
      simp [object, Accumulator.fold, fieldsMerge_merge])

theorem entityMerge_good_nil : entityMerge.Good (.obj []) :=
  ⟨[], rfl, Sorted.nil, by simp⟩

theorem entityMerge_content_nil : entityMerge.content (.obj []) = ∅ := by
  refine Set.eq_empty_of_forall_notMem ?_
  rintro _ ⟨_, hf, _, ha, -⟩
  cases Json.asObject_eq_some.1 hf
  cases ha

/-- The entity types of a statement merged into the combined policy. -/
def policyMerge : Accumulator ChainError Object (String × Json)
    (String × Option (String × Option (Operator × Mark))) :=
  entityMerge.slot (.obj []) entityMerge_good_nil entityMerge_content_nil

theorem policyMerge_merge : policyMerge.merge = mergeEntityType := by
  funext current entry
  simp [policyMerge, slot, slotMerge, entityMerge, view, mergeEntityType]

theorem policyMerge_fold_merge : policyMerge.fold.merge = mergePolicy := by
  funext current incoming
  simp [fold, policyMerge_merge, mergePolicy]

/-! ### Policies that differ in their arrays only -/

/-- The same operand, or arrays with the same items in whatever order and number. -/
def SameOperand (v w : Json) : Prop :=
  v = w ∨ ∃ l l', v = .arr l ∧ w = .arr l' ∧ ∀ x, x ∈ l ↔ x ∈ l'

/-- The same operand, or arrays that are permutations of each other. -/
def PermutedOperand (v w : Json) : Prop :=
  v = w ∨ ∃ l l', v = .arr l ∧ w = .arr l' ∧ l.Perm l'

/-- The same member names, with values related by `R`. -/
def SameMembers (R : Json → Json → Prop) (m m' : Object) : Prop :=
  ∀ name, Option.Rel R (m.lookup name) (m'.lookup name)

/-- Objects with the same member names and values related by `R`. -/
def SameObject (R : Json → Json → Prop) (v w : Json) : Prop :=
  ∃ m m', v = .obj m ∧ w = .obj m' ∧ SameMembers R m m'

/-- The same entity types, parameters and operators, with operands related by `R`. -/
def SamePolicy (R : Json → Json → Prop) (policy policy' : Object) : Prop :=
  SameMembers (SameObject (SameObject R)) policy policy'

theorem sameOperand_of_marks (hv : validateOperand op.key v = .ok ())
    (hw : validateOperand op.key w = .ok ()) (h : ∀ mark, op.Marks v mark ↔ op.Marks w mark) :
    SameOperand v w := by
  cases op with
  | value | default => exact .inl ((h (.includes v)).1 rfl)
  | essential =>
    obtain ⟨b, rfl⟩ := exists_bool_of_validateOperand hv
    obtain ⟨b', rfl⟩ := exists_bool_of_validateOperand hw
    have hin := h (.includes (.bool true))
    left
    cases b <;> cases b' <;> simp_all [Operator.Marks, Operator.Includes]
  | add | supersetOf =>
    obtain ⟨l, l', rfl, rfl⟩ := exists_arrs_of_validateOperand (by simp) hv hw
    exact .inr ⟨_, _, rfl, rfl, fun x => h (.includes x)⟩
  | oneOf | subsetOf =>
    obtain ⟨_, _, rfl, rfl⟩ := exists_arrs_of_validateOperand (by simp) hv hw
    exact .inr ⟨_, _, rfl, rfl, fun x => not_iff_not.1 (h (.excludes x))⟩

/-- Collected operators with the same marks are the same up to their arrays. -/
theorem sameMembers_of_marks {ops' : Object} (h : Collected ops) (h' : Collected ops')
    (hmk : marks ops = marks ops') : SameMembers SameOperand ops ops' := by
  intro name
  by_cases hnm : ∃ op, name = Operator.key op
  · obtain ⟨op, rfl⟩ := hnm
    have hmem : ∀ mark, (∃ v, ops.lookup op.key = some v ∧ op.Marks v mark) ↔
        ∃ v, ops'.lookup op.key = some v ∧ op.Marks v mark :=
      fun mark => iff_of_eq (congrArg ((op, mark) ∈ ·) hmk)
    have hus := hmem .used
    cases hv : lookup ops op.key with
    | none =>
      cases hw : lookup ops' op.key with
      | none => exact .none
      | some => simp [hv, hw, Operator.Marks] at hus
    | some v =>
      cases hw : lookup ops' op.key with
      | none => simp [hv, hw, Operator.Marks] at hus
      | some w =>
        refine .some (sameOperand_of_marks (h.typed op v hv) (h'.typed op w hw) fun mark => ?_)
        simpa [hv, hw] using hmem mark
  · -- an extension: neither has collected it
    have hno : ∀ {o : Object}, Collected o → o.lookup name = none := by
      intro _ ho
      by_contra hso
      obtain ⟨v, hv⟩ := Option.ne_none_iff_exists'.1 hso
      exact hnm (ho.known name v hv)
    rw [hno h, hno h']
    exact .none

theorem sameObject_of_parameterMerge (hv : parameterMerge.Good v) (hw : parameterMerge.Good w)
    (h : parameterMerge.content v = parameterMerge.content w) : SameObject SameOperand v w := by
  obtain ⟨o, rfl, ho, -⟩ := hv
  obtain ⟨o', rfl, ho', -⟩ := hw
  have hmk : operatorsMerge.content o = operatorsMerge.content o' := by
    simpa [parameterMerge, view] using h
  exact ⟨o, o', rfl, rfl, sameMembers_of_marks ho ho' hmk⟩

theorem sameObject_of_entityMerge (hv : entityMerge.Good v) (hw : entityMerge.Good w)
    (h : entityMerge.content v = entityMerge.content w) :
    SameObject (SameObject SameOperand) v w := by
  obtain ⟨m, rfl, -, hm⟩ := hv
  obtain ⟨m', rfl, -, hm'⟩ := hw
  have hct : fieldsMerge.fold.content m = fieldsMerge.fold.content m' := by
    simpa [entityMerge, view] using h
  exact ⟨m, m', rfl, rfl, parameterMerge.slot_rel (fun _ _ => sameObject_of_parameterMerge)
    hm hm' hct⟩

theorem samePolicy_of_policyMerge {p p' : Object} (hp : policyMerge.Good p)
    (hp' : policyMerge.Good p') (h : policyMerge.content p = policyMerge.content p') :
    SamePolicy SameOperand p p' :=
  entityMerge.slot_rel (fun _ _ => sameObject_of_entityMerge) hp.2 hp'.2 h

/-! ### Arrays that repeat nothing -/

/-- No array at the given depth of the document has an item twice. -/
def Distinct : ℕ → Json → Prop
  | 0, v => ∀ l, v = .arr l → l.Nodup
  | n + 1, v => ∀ m, v = .obj m → ∀ e ∈ m, Distinct n e.2

theorem nodup_union {l l' : List Json} (h : l.Nodup) : (union l l').Nodup := by
  unfold union
  induction l' generalizing l with
  | nil => exact h
  | cons x l' ih =>
    rw [List.foldl_cons]
    split_ifs with hx
    · exact ih h
    · exact ih (List.nodup_append.2 ⟨h, List.nodup_singleton x, by grind⟩)

theorem distinct_mergeOperator (hcur : Distinct 0 current)
    (h : mergeOperator op current next = .ok v) : Distinct 0 v := by
  cases op with
  | value | default =>
    simp only [mergeOperator, bind_ok, pure_ok] at h
    obtain ⟨_, -, rfl⟩ := h
    exact hcur
  | essential =>
    cases h
    rintro _ ⟨⟩
  | add | supersetOf =>
    simp only [mergeOperator, bind_ok, okOr_ok, Json.asArray_eq_some, pure_ok] at h
    obtain ⟨l, rfl, _, -, rfl⟩ := h
    rintro _ ⟨⟩
    exact nodup_union (hcur l rfl)
  | oneOf | subsetOf =>
    simp only [mergeOperator, bind_ok, okOr_ok, Json.asArray_eq_some, pure_ok] at h
    obtain ⟨_, -, l, rfl, _, -, rfl⟩ := h
    rintro _ ⟨⟩
    exact (hcur l rfl).filter _

section

variable {n : ℕ} {m m' : Object} {name : String}

theorem distinct_nil : Distinct (n + 1) (.obj []) := by
  rintro _ ⟨⟩
  simp

theorem distinct_insert (h : Distinct (n + 1) (.obj m)) (hv : Distinct n v) :
    Distinct (n + 1) (.obj (m.insert name v)) := by
  rintro _ ⟨⟩ e he
  rcases eq_or_mem_of_mem_insert he with rfl | he
  · exact hv
  · exact h m rfl e he

theorem distinct_getD (h : Distinct (n + 2) (.obj m)) :
    Distinct (n + 1) ((m.lookup name).getD (.obj [])) := by
  cases hlk : lookup m name with
  | none => exact distinct_nil
  | some => exact h m rfl _ (mem_of_lookup hlk)

/-- Members merged one after the other, when each merge keeps the arrays as they should be. -/
theorem distinct_foldlM {f : Object → String × Json → Except ChainError Object}
    (hf : ∀ {m e m'}, Distinct (n + 1) (.obj m) → Distinct n e.2 → f m e = .ok m' →
      Distinct (n + 1) (.obj m'))
    {fields : Object} (hfld : Distinct (n + 1) (.obj fields)) (h : Distinct (n + 1) (.obj m))
    (hm : fields.foldlM f m = .ok m') : Distinct (n + 1) (.obj m') :=
  foldlM_invariant (I := fun m => Distinct (n + 1) (.obj m)) hm h fun e he _ _ hm hok =>
    hf hm (hfld _ rfl e he) hok

theorem distinct_mergeEntry (h : Distinct 1 (.obj m)) (he : Distinct 0 entry.2)
    (hm : mergeEntry m entry = .ok m') : Distinct 1 (.obj m') := by
  -- An unknown operator is skipped, a new one inserted, a known one merged.
  unfold mergeEntry at hm
  split at hm
  · cases hm
    exact h
  · split at hm
    · cases hm
      exact distinct_insert h he
    · rename_i hlk
      simp only [bind_ok, pure_ok] at hm
      obtain ⟨_, hmrg, rfl⟩ := hm
      have hpv := h m rfl _ (mem_of_lookup hlk)
      exact distinct_insert h (distinct_mergeOperator hpv hmrg)

theorem distinct_mergeParameter (h : Distinct 2 (.obj m)) (he : Distinct 1 entry.2)
    (hm : mergeParameter m entry = .ok m') : Distinct 2 (.obj m') := by
  simp only [mergeParameter, object, bind_ok, okOr_ok, Json.asObject_eq_some, pure_ok] at hm
  obtain ⟨_, hops, _, -, _, hex, _, hfd, _, -, rfl⟩ := hm
  exact distinct_insert h (distinct_foldlM distinct_mergeEntry (hops ▸ he)
    (hex ▸ distinct_getD h) hfd)

theorem distinct_mergeEntityType (h : Distinct 3 (.obj m)) (he : Distinct 2 entry.2)
    (hm : mergeEntityType m entry = .ok m') : Distinct 3 (.obj m') := by
  simp only [mergeEntityType, object, bind_ok, okOr_ok, Json.asObject_eq_some, pure_ok] at hm
  obtain ⟨_, hfl, _, hex, _, hfd, rfl⟩ := hm
  exact distinct_insert h (distinct_foldlM distinct_mergeParameter (hfl ▸ he)
    (hex ▸ distinct_getD h) hfd)

theorem SameObject.mono {R R' : Json → Json → Prop}
    (hR : ∀ v w, Distinct n v → Distinct n w → R v w → R' v w) (hv : Distinct (n + 1) v)
    (hw : Distinct (n + 1) w) (h : SameObject R v w) : SameObject R' v w := by
  obtain ⟨m, m', rfl, rfl, hm⟩ := h
  refine ⟨m, m', rfl, rfl, fun name => ?_⟩
  have hrel := hm name
  cases hlk : lookup m name <;> cases hlk' : lookup m' name <;> rw [hlk, hlk'] at hrel <;>
    cases hrel
  · exact .none
  · rename_i hrel
    exact .some (hR _ _ (hv m rfl _ (mem_of_lookup hlk)) (hw m' rfl _ (mem_of_lookup hlk')) hrel)

/-- Arrays with the same items that repeat nothing are permutations of each other. -/
theorem permutedOperand_of_same (hv : Distinct 0 v) (hw : Distinct 0 w) (h : SameOperand v w) :
    PermutedOperand v w := by
  obtain rfl | ⟨l, l', rfl, rfl, hmem⟩ := h
  · exact .inl rfl
  · exact .inr ⟨l, l', rfl, rfl, (List.perm_ext_iff_of_nodup (hv l rfl) (hw l' rfl)).2 hmem⟩

theorem samePolicy_of_distinct (hm : Distinct 3 (.obj m)) (hm' : Distinct 3 (.obj m'))
    (h : SamePolicy SameOperand m m') : SamePolicy PermutedOperand m m' := by
  -- Three levels down: entity types, parameters, operators.
  obtain ⟨_, _, ⟨⟩, ⟨⟩, hsm⟩ := SameObject.mono (fun _ _ hv hw => SameObject.mono
    (fun _ _ hv hw => SameObject.mono (fun _ _ => permutedOperand_of_same) hv hw) hv hw) hm hm'
    ⟨m, m', rfl, rfl, h⟩
  exact hsm

end

/-- Well-formed policies can be merged as far as their shape goes. -/
theorem fit_of_wellFormed {policy : Object} (h : (Json.obj policy).WellFormed) :
    policyMerge.fold.Fit policy := by
  cases h with
  | obj _ htyp =>
    intro e he _ hfld e' he' _ hops
    rw [Json.asObject_eq_some] at hfld hops
    cases hfld ▸ htyp e he with
    | obj _ hps =>
      cases hops ▸ hps e' he' with
      | obj hso => exact hso

/-- The policies of a list merged one after the other. -/
def mergeAll (policies : List Object) : Except ChainError Object := policies.foldlM mergePolicy []

theorem distinct_mergeAll {policies : List Object} {merged : Object}
    (h : ∀ policy ∈ policies, Distinct 3 (.obj policy))
    (hm : mergeAll policies = .ok merged) : Distinct 3 (.obj merged) :=
  foldlM_invariant (I := fun m => Distinct 3 (.obj m)) hm distinct_nil fun policy hp _ _ =>
    distinct_foldlM distinct_mergeEntityType (h policy hp)

theorem mergeAll_eq (policies : List Object) :
    mergeAll policies = policies.foldlM policyMerge.fold.merge [] := by
  rw [policyMerge_fold_merge, mergeAll]

/-- **Merging is order-insensitive and idempotent.**  Two orders of well-formed policies both fail
to merge, or both merge to the same policy up to the order and the repetition of array items, and
up to the order alone if no array repeats an item; merging a policy again changes nothing. -/
theorem mergeAll_perm (policies : List Object)
    (hwf : ∀ policy ∈ policies, (Json.obj policy).WellFormed) :
    (∀ order, policies.Perm order →
      ((∀ r, mergeAll policies ≠ .ok r) ∧ ∀ r, mergeAll order ≠ .ok r) ∨
        ∃ r r', mergeAll policies = .ok r ∧ mergeAll order = .ok r' ∧ SamePolicy SameOperand r r' ∧
        ((∀ policy ∈ policies, Distinct 3 (.obj policy)) → SamePolicy PermutedOperand r r')) ∧
      ∀ policy ∈ policies, ∀ n, mergeAll (List.replicate (n + 1) policy) = mergeAll [policy] := by
  have hgood : policyMerge.fold.Good [] := ⟨Sorted.nil, by simp⟩
  have hfit : ∀ policy ∈ policies, policyMerge.fold.Fit policy :=
    fun policy hp => fit_of_wellFormed (hwf policy hp)
  constructor
  · intro order hpm
    have hperm := policyMerge.fold.perm hpm hgood hfit
    simp only [← mergeAll_eq] at hperm
    obtain hfa | ⟨r, r', hr, hr', hgoo, hgoo', hct⟩ := hperm
    · exact .inl hfa
    · have hsm := samePolicy_of_policyMerge hgoo hgoo' hct
      refine .inr ⟨r, r', hr, hr', hsm, fun hno => ?_⟩
      have hno' : ∀ policy ∈ order, Distinct 3 (.obj policy) :=
        fun policy hp => hno policy (hpm.mem_iff.2 hp)
      exact samePolicy_of_distinct (distinct_mergeAll hno hr) (distinct_mergeAll hno' hr') hsm
  · intro policy hp n
    simp only [mergeAll_eq]
    rw [policyMerge.fold.replicate hgood (hfit policy hp) n]
    exact (policyMerge.fold.replicate hgood (hfit policy hp) 0).symm

/-- The policy that adds contacts. -/
def addContacts (contacts : List String) : Object :=
  [("openid_relying_party", .obj [("contacts", .obj [("add", .arr (contacts.map .str))])])]

theorem wellFormed_singleton {name : String} (h : v.WellFormed) :
    (Json.obj [(name, v)]).WellFormed := by
  refine .obj (List.pairwise_singleton _ _) fun m hm => ?_
  obtain rfl := List.mem_singleton.1 hm
  exact h

theorem wellFormed_addContacts (contacts : List String) :
    (Json.obj (addContacts contacts)).WellFormed := by
  have hoper : (Json.arr (contacts.map .str)).WellFormed := by
    refine .arr fun v hv => ?_
    obtain ⟨s, -, rfl⟩ := List.mem_map.1 hv
    exact .str s
  exact wellFormed_singleton (wellFormed_singleton (wellFormed_singleton hoper))

/-- Two statements that repeat nothing, in both orders. -/
theorem mergeAll_perm_contacts :
    (∃ r r', mergeAll [addContacts ["a", "b"], addContacts ["b", "c"]] = .ok r ∧
      mergeAll [addContacts ["b", "c"], addContacts ["a", "b"]] = .ok r' ∧
      SamePolicy PermutedOperand r r') ∧
      mergeAll (List.replicate 3 (addContacts ["a", "b"])) = mergeAll [addContacts ["a", "b"]] := by
  have h := mergeAll_perm [addContacts ["a", "b"], addContacts ["b", "c"]] (by
    simp [wellFormed_addContacts])
  have hno : ∀ policy ∈ [addContacts ["a", "b"], addContacts ["b", "c"]],
      Distinct 3 (.obj policy) := by
    simp [Distinct, addContacts]
  obtain hfa | ⟨r, r', hr, hr', -, hpm⟩ := h.1 _ (List.Perm.swap ..)
  · exact absurd (by decide +kernel) (hfa.1 (addContacts ["a", "b", "c"]))
  · exact ⟨⟨r, r', hr, hr', hpm hno⟩, h.2 _ List.mem_cons_self 2⟩

/-- The repetitions of the first array are kept, those of the second are not. -/
theorem mergeAll_repeated :
    (Json.obj (addContacts ["a", "a"])).WellFormed ∧ (Json.obj (addContacts ["a"])).WellFormed ∧
      mergeAll [addContacts ["a", "a"], addContacts ["a"]] = .ok (addContacts ["a", "a"]) ∧
      mergeAll [addContacts ["a"], addContacts ["a", "a"]] = .ok (addContacts ["a"]) ∧
      ¬SamePolicy PermutedOperand (addContacts ["a", "a"]) (addContacts ["a"]) := by
  refine ⟨wellFormed_addContacts _, wellFormed_addContacts _, by decide +kernel,
    by decide +kernel, fun h => ?_⟩
  have hty : SameObject (SameObject PermutedOperand) (.obj [("contacts", _)])
      (.obj [("contacts", _)]) := Option.rel_some_some.1 (h "openid_relying_party")
  obtain ⟨_, _, ⟨⟩, ⟨⟩, hps⟩ := hty
  have hpar : SameObject PermutedOperand (.obj [("add", _)]) (.obj [("add", _)]) :=
    Option.rel_some_some.1 (hps "contacts")
  obtain ⟨_, _, ⟨⟩, ⟨⟩, hops⟩ := hpar
  have hoper : PermutedOperand (.arr [.str "a", .str "a"]) (.arr [.str "a"]) :=
    Option.rel_some_some.1 (hops "add")
  obtain heq | ⟨_, _, ⟨⟩, ⟨⟩, hpm⟩ := hoper
  · cases heq
  · exact absurd hpm.length_eq (by decide)

end AsteriusIdp.Federation
