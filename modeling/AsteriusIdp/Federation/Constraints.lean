import AsteriusIdp.Federation.PolicySound

/-!
# The constraints of a chain

Resolution walks the subordinate statements from the anchor downwards, checks the path length and
the names against each statement's constraints, and drops the entity types they do not allow.  No
later step brings a dropped type back: the overrides and the policy only rewrite the types that are
there (`Narrows`).

* `resolve_checked` : after resolution the entity types are among the leaf's, every constraint of
  the chain was checked, and every type that is left is one that each of them allows.
-/

namespace AsteriusIdp.Federation

open Fallible Entries

/-! ### Entity types -/

/-- Every entity type of `types'` is one of `types`. -/
def Narrows (types' types : Object) : Prop := ∀ T, types'.contains T → types.contains T

theorem Narrows.refl (types : Object) : Narrows types types := fun _ => id

theorem Narrows.trans {a b c : Object} (h : Narrows a b) (h' : Narrows b c) : Narrows a c :=
  fun T hT => h' T (h T hT)

variable {types types' : Object} {parseUrl : UrlParser} {chain : List Statement}

/-- Replacing the value of an entity type that is there brings in no new type. -/
theorem narrows_insert {T : String} {old : Json} (h : types.lookup T = some old) (new : Json) :
    Narrows (types.insert T new) types := by
  intro T' hT'
  by_cases heq : T' = T
  · subst heq
    simp [contains, h]
  · rwa [contains, lookup_insert_of_ne _ _ heq] at hT'

variable {metadata metadata' : Object} {e : String × Json}

theorem applyEntityType_narrows
    (h : applyEntityType metadata e = .ok metadata') : Narrows metadata' metadata := by
  unfold applyEntityType at h
  split at h
  · obtain rfl := pure_ok.1 h
    exact Narrows.refl _
  · rename_i fields hfld
    simp only [bind_ok, pure_ok] at h
    obtain ⟨_, -, _, -, _, -, rfl⟩ := h
    exact narrows_insert hfld _

theorem applyPolicy_narrows {policy : Object}
    (h : applyPolicy policy metadata = .ok metadata') : Narrows metadata' metadata :=
  foldlM_invariant (I := fun s => Narrows s metadata) h (Narrows.refl _)
    fun _ _ _ _ hs hst => (applyEntityType_narrows hst).trans hs

theorem overrideEntityType_narrows (h : overrideEntityType types e = .ok types') :
    Narrows types' types := by
  unfold overrideEntityType at h
  split at h
  · obtain rfl := pure_ok.1 h
    exact Narrows.refl _
  · rename_i current hcur
    simp only [bind_ok, pure_ok] at h
    obtain ⟨_, -, _, -, rfl⟩ := h
    exact narrows_insert hcur _

theorem overrideMetadata_narrows {superior : Statement}
    (h : overrideMetadata superior types = .ok types') : Narrows types' types := by
  unfold overrideMetadata at h
  split at h
  · simp only [bind_ok] at h
    obtain ⟨_, -, h⟩ := h
    exact foldlM_invariant (I := fun s => Narrows s types) h (Narrows.refl _)
      fun _ _ _ _ hs hst => (overrideEntityType_narrows hst).trans hs
  · obtain rfl := pure_ok.1 h
    exact Narrows.refl _

/-- An `allowed_entity_types` constraint admits the entity type; `federation_entity` is always
admitted. -/
def TypeAllowed (constraints : Object) (T : String) : Prop :=
  ∀ value, constraints.lookup "allowed_entity_types" = some value →
    ∃ allowed : List String, value = .arr (allowed.map .str) ∧
    (T = "federation_entity" ∨ T ∈ allowed)

theorem retainTypes_spec {constraints : Object} (h : retainTypes constraints types = .ok types') :
    Narrows types' types ∧ ∀ T, types'.contains T → TypeAllowed constraints T := by
  unfold retainTypes at h
  cases halw : lookup constraints "allowed_entity_types" with
  | none =>
    simp only [halw, pure_ok] at h
    subst h
    refine ⟨Narrows.refl _, fun T _ value hval => ?_⟩
    cases halw.symm.trans hval
  | some =>
    simp only [halw, bind_ok, pure_ok] at h
    obtain ⟨allowed, hstr, _, -, rfl⟩ := h
    have hlk (T : String) := lookup_filter
      (fun T => decide (T = "federation_entity" ∨ T ∈ allowed)) types T
    constructor
    · intro T hT
      rw [contains, hlk] at hT
      split_ifs at hT with hke
      · exact hT
      · cases hT
    · intro T hT value' hval'
      cases halw.symm.trans hval'
      refine ⟨allowed, strings_ok hstr, ?_⟩
      rw [contains, hlk] at hT
      split_ifs at hT with hke
      · simpa using hke
      · cases hT

/-! ### The constraints of a chain -/

/-- What the constraints of statement `index` were checked against. -/
structure Checked (parseUrl : UrlParser) (chain : List Statement) (index : ℕ)
    (constraints types : Object) : Prop where
  /-- The number of intermediates below the issuer. -/
  pathLength : checkPathLength constraints index = .ok ()
  /-- The names of the entities below the issuer. -/
  naming : checkNaming parseUrl constraints index chain = .ok ()
  /-- The entity types that are left. -/
  types : ∀ T, types.contains T → TypeAllowed constraints T

/-- The constraints of a statement, if it has any, were checked. -/
def StatementChecked (parseUrl : UrlParser) (chain : List Statement)
    (e : Statement × ℕ) (types : Object) : Prop :=
  ∀ value, e.1.claims.other.lookup "constraints" = some value →
    ∃ constraints, value = .obj constraints ∧ Checked parseUrl chain e.2 constraints types

theorem StatementChecked.narrow {e : Statement × ℕ} (h : StatementChecked parseUrl chain e types)
    (hn : Narrows types' types) : StatementChecked parseUrl chain e types' := by
  intro value hval
  obtain ⟨constraints, heq, hc⟩ := h value hval
  exact ⟨constraints, heq, hc.pathLength, hc.naming, fun T hT => hc.types T (hn T hT)⟩

theorem collectConstraints_spec {e : Statement × ℕ}
    (h : collectConstraints parseUrl chain types e = .ok types') :
    Narrows types' types ∧ StatementChecked parseUrl chain e types' := by
  unfold collectConstraints at h
  cases hval : lookup e.1.claims.other "constraints" with
  | none =>
    simp only [hval, pure_ok] at h
    subst h
    refine ⟨Narrows.refl _, fun value hval' => ?_⟩
    cases hval.symm.trans hval'
  | some =>
    simp only [hval, applyConstraints, object, bind_ok, okOr_ok, Json.asObject_eq_some] at h
    obtain ⟨constraints, rfl, _, hlen, _, hnm, htyp⟩ := h
    obtain ⟨hn, halw⟩ := retainTypes_spec htyp
    refine ⟨hn, fun value' hval' => ?_⟩
    cases hval.symm.trans hval'
    exact ⟨constraints, rfl, hlen, hnm, halw⟩

/-- Resolution checks the constraints of every subordinate statement, and what is left in the
end was left by each of them. -/
theorem resolveSteps_checked {l : List (Statement × ℕ)} {state state' : Object × Object}
    (h : l.foldlM (resolveStep parseUrl chain) state = .ok state') :
    Narrows state'.1 state.1 ∧ ∀ e ∈ l, StatementChecked parseUrl chain e state'.1 := by
  have hst : ∀ {s s' : Object × Object} {e : Statement × ℕ},
      resolveStep parseUrl chain s e = .ok s' →
        Narrows s'.1 s.1 ∧ StatementChecked parseUrl chain e s'.1 := by
    intro s s' e h
    simp only [resolveStep, bind_ok, pure_ok] at h
    obtain ⟨types, htyp, _, -, rfl⟩ := h
    exact collectConstraints_spec htyp
  constructor
  · exact foldlM_invariant (I := fun s => Narrows s.1 state.1) h (Narrows.refl _)
      fun _ _ _ _ hs h => (hst h).1.trans hs
  · refine foldlM_each (I := fun _ => True)
      (Q := fun e (s : Object × Object) => StatementChecked parseUrl chain e s.1) h trivial
      (fun _ _ _ _ _ _ => trivial) (fun _ _ _ _ _ h => (hst h).2) ?_
    exact List.pairwise_of_forall fun _ _ _ _ _ h hs => hs.narrow (hst h).1

/-- What resolution establishes besides the policy: the entity types are the leaf's, and every
statement with constraints is a subordinate one whose constraints were checked. -/
theorem resolve_checked {metadata : Json} (h : resolve parseUrl chain = .ok metadata) :
    ∃ leaf published types, chain[0]? = some leaf ∧ leaf.claims.metadata = some (.obj published) ∧
    metadata = .obj types ∧ Narrows types published ∧
    ∀ index statement, chain[index]? = some statement →
      StatementChecked parseUrl chain (statement, index) types := by
  unfold resolve at h
  split at h
  · rename_i leaf superior rest
    simp only [bind_ok, okOr_ok, Json.asObject_eq_some, pure_ok] at h
    obtain ⟨_, hcf, _, hme, published, rfl, types₀, hov, _, -, _, -, state, hste, types,
      happ, rfl⟩ := h
    obtain ⟨hn, hchk⟩ := resolveSteps_checked hste
    have hna := (applyPolicy_narrows happ).trans hn
    refine ⟨leaf, published, types, rfl, hme, rfl,
      hna.trans (overrideMetadata_narrows hov), fun index statement hs => ?_⟩
    by_cases hen : index = 0 ∨ index = (leaf :: superior :: rest).length - 1
    · -- an Entity Configuration with constraints was refused
      intro value hval
      have hmem : (statement, index) ∈ (leaf :: superior :: rest).zipIdx := by
        rw [List.mem_zipIdx_iff_getElem?]
        exact hs
      have href := (forM_ok.1 hcf) _ hmem
      rw [refuseIf_ok] at href
      exact (href ⟨hen, "constraints", by decide, by simp [contains, hval]⟩).elim
    · have hlt := (List.getElem?_eq_some_iff.1 hs).1
      have hmem := mem_subordinates.2 ⟨by omega, by omega, hs⟩
      exact (hchk _ (List.mem_reverse.2 hmem)).narrow (applyPolicy_narrows happ)
  · cases h

end AsteriusIdp.Federation
