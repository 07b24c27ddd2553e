import AsteriusIdp.AgentTask.Tree

/-!
# The shape of the trees

The parents form a forest no deeper than ten grants, and a binding sits on whole trees of it: on
the root of a task and on everything below.  Every transaction keeps that, so each bounded walk of
the program sees the whole lineage of a grant.

* `lineage_eq_of_climb`: a walk that is long enough returns the rows of the climb.
* `shape_step`: every transaction keeps the shape.
* `grows_step`: no transaction takes back a grant, a revocation, a binding, a recorded token or a
  queued withdrawal.
-/

namespace AsteriusIdp.AgentTask

open Fallible Transition Forest Entries Store.Tables
open Issuance (Task lineage authorityRows)

/-! ### Walks -/

section Walks

variable {grants : String → Option Grant} {n m : ℕ} {id : String} {ks : List String}

theorem exists_row_of_up {k : String} {p : Option String}
    (h : (grants k).map (·.parent) = some p) : ∃ row, grants k = some row ∧ row.parent = p := by
  simpa using h

section

variable (h : climb (fun id => (grants id).map (·.parent)) n id = some ks)
include h

/-- A walk that is long enough returns the rows of the climb. -/
theorem lineage_eq_of_climb (hle : n ≤ m) : lineage grants m id = ks.filterMap grants := by
  induction climbs_of_climb h generalizing m with
  | root hup =>
    obtain ⟨m, rfl⟩ := Nat.exists_eq_add_of_le' (Nat.le_of_add_left_le hle)
    obtain ⟨row, hrow, hpar⟩ := exists_row_of_up hup
    simp [lineage, hrow, hpar]
  | child hup hrs _ ih =>
    obtain ⟨_, rfl⟩ := Nat.exists_eq_add_of_le' (Nat.le_of_add_left_le hle)
    obtain ⟨_, hrow, hpar⟩ := exists_row_of_up hup
    simp [lineage, hrow, hpar, ih hrs (Nat.le_of_succ_le_succ hle)]

theorem authorityRows_eq_of_climb : authorityRows grants n id = some (ks.filterMap grants) := by
  induction climbs_of_climb h with
  | root hup =>
    obtain ⟨row, hrow, hpar⟩ := exists_row_of_up hup
    simp [authorityRows, hrow, hpar]
  | child hup hrs _ ih =>
    obtain ⟨_, hrow, hpar⟩ := exists_row_of_up hup
    simp [authorityRows, hrow, hpar, ih hrs]

end

end Walks

variable {grant row : Grant} {claims signed : TokenClaims} {clock now : ℤ} {a : String}
  {reason : RevocationReason} {named : Finset String} {principals : Principals}

/-- No token is signed for a grant with a revoked one above it. -/
theorem lineage_live_of_signAccess {store after : Issuance.Store} {ks : List String}
    {start : String} (h : Issuance.signAccess store grant claims clock = .ok (signed, after))
    (hsta : start = if store.holds grant then grant.id else grant.parent.getD grant.id)
    (hks : climb (fun id => (store.grants id).map (·.parent)) 10 start = some ks) (ha : a ∈ ks)
    (hrow : store.grants a = some row) : row.revokedAt = none := by
  have hmem : row ∈ ks.filterMap store.grants := List.mem_filterMap.2 ⟨a, ha, hrow⟩
  unfold Issuance.signAccess at h
  split at h
  · simp only [Issuance.signUnbound, bind_ok] at h
    obtain ⟨_, ⟨_, hlk, -⟩, -⟩ := h
    obtain ⟨rows, exact, hrs, hexa, -, -, hlv⟩ := Issuance.lockIssuanceAuthority_spec hlk
    -- the row of the grant is among those that were locked, so the tables hold it
    rw [Issuance.Store.holds, hexa, Option.isSome_some, if_pos rfl] at hsta
    subst hsta
    rw [authorityRows_eq_of_climb hks, Option.some.injEq] at hrs
    subst hrs
    exact hlv row hmem
  · simp only [Issuance.signFenced, Issuance.checkLineage, bind_ok] at h
    obtain ⟨_, -, _, ⟨-, -, hanc⟩, -⟩ := h
    rw [← hsta, lineage_eq_of_climb hks le_rfl] at hanc
    have hchk := forM_ok.1 hanc row hmem
    simp only [Issuance.checkAncestor, bind_ok, refuseIf_ok] at hchk
    obtain ⟨-, hlv, -⟩ := hchk
    simpa using hlv

/-! ### Trees of the same shape -/

/-- The root grant of a task. -/
def Tree.roots (tree : Tree) (task : String) : Option String :=
  (tree.tasks.lookup task).map (·.rootGrantId)

/-- What a transaction makes of a row: it keeps its place in the forest, and a revocation, which is
a time and a reason, stays as it is.  Only where `fresh` holds may a revocation be new. -/
structure Moved (fresh : Prop) (row row' : Grant) : Prop extends Store.Later row row' where
  stamps : (row'.revokedAt = row.revokedAt ∧ row'.revocationReason = row.revocationReason) ∨
    (fresh ∧ row.revokedAt = none ∧ row'.revokedAt.isSome ∧ row'.revocationReason.isSome)

variable {row' root : Grant}

theorem Moved.of_eq {fresh : Prop} (hid : row'.id = row.id) (htm : row'.revokedAt = row.revokedAt)
    (hrsn : row'.revocationReason = row.revocationReason) (hcli : row'.client = row.client)
    (hup : row'.parent = row.parent) : Moved fresh row row' :=
  ⟨⟨hid, fun _ ht => htm.trans ht, fun _ hr => hrsn.trans hr, hcli, hup⟩,
    .inl ⟨htm, hrsn⟩⟩

theorem Moved.refl (fresh : Prop) (row : Grant) : Moved fresh row row := .of_eq rfl rfl rfl rfl rfl

/-- The shape of the tables: rows under their identifiers, with both stamps of a revocation or
none, and bindings on whole trees. -/
structure Tree.Shaped (tree : Tree) : Prop where
  keyed : ∀ id row, tree.grant id = some row → row.id = id
  stamped : ∀ id row, tree.grant id = some row →
    (row.revokedAt.isSome ↔ row.revocationReason.isSome)
  forest : Labelled tree.up 10 tree.bindings.lookup tree.roots
  sorted : tree.bindings.Sorted

/-- The rows change at most in what may change, and only `fresh` ones are newly revoked. -/
structure RowsMoved (fresh : String → Prop) (tree tree' : Tree) : Prop where
  rows : ∀ id row', tree'.grant id = some row' →
    ∃ row, tree.grant id = some row ∧ Moved (fresh id) row row'
  kept : ∀ id, (tree.grant id).isSome → (tree'.grant id).isSome

/-- The rows change at most in what may change, and nothing else of the shape does. -/
structure Rewrites (fresh : String → Prop) (tree tree' : Tree) : Prop extends
    RowsMoved fresh tree tree' where
  bindings : tree'.bindings = tree.bindings
  roots : tree'.roots = tree.roots

namespace RowsMoved

variable {fresh : String → Prop} {tree tree' : Tree}

section

variable (h : RowsMoved fresh tree tree')
include h

/-- A row that was there is there at a later moment. -/
theorem moved {id : String} {row : Grant} (hrow : tree.grant id = some row) :
    ∃ row', tree'.grant id = some row' ∧ Moved (fresh id) row row' := by
  obtain ⟨row', hrow'⟩ := Option.isSome_iff_exists.1 (h.kept id (hrow ▸ rfl))
  obtain ⟨_, hrow₀, hmv⟩ := h.rows id row' hrow'
  cases hrow₀.symm.trans hrow
  exact ⟨row', hrow', hmv⟩

theorem up : tree'.up = tree.up := by
  funext id
  unfold Tree.up
  cases hrow : tree.grant id with
  | none =>
    cases hrow' : tree'.grant id with
    | none => rfl
    | some row' =>
      obtain ⟨_, hold, -⟩ := h.rows id row' hrow'
      cases hrow.symm.trans hold
  | some =>
    obtain ⟨_, hrow', hmv⟩ := h.moved hrow
    rw [hrow', Option.map_some, Option.map_some, hmv.parent]

theorem shaped (hs : tree.Shaped) (hfor : Labelled tree.up 10 tree'.bindings.lookup tree'.roots)
    (hso : tree'.bindings.Sorted) : tree'.Shaped := by
  refine ⟨fun id row' hrow' => ?_, fun id row' hrow' => ?_, h.up ▸ hfor, hso⟩
  · obtain ⟨row, hrow, hmv⟩ := h.rows id row' hrow'
    exact hmv.id.trans (hs.keyed id row hrow)
  · obtain ⟨row, hrow, hmv⟩ := h.rows id row' hrow'
    rcases hmv.stamps with ⟨htm, hrsn⟩ | ⟨-, -, htm, hrsn⟩
    · rw [htm, hrsn]
      exact hs.stamped id row hrow
    · exact ⟨fun _ => hrsn, fun _ => htm⟩

end

end RowsMoved

variable {fresh : String → Prop} {tree tree' : Tree}

/-- The walk from a stored grant ends. -/
theorem Tree.Shaped.climbs (hs : tree.Shaped) {id : String} (hrow : tree.grant id = some row) :
    ∃ ks, climb tree.up 10 id = some ks :=
  hs.forest.rooted id row.parent (by rw [Tree.up, hrow, Option.map_some])

theorem Tree.Shaped.rewrites (hs : tree.Shaped) (h : Rewrites fresh tree tree') : tree'.Shaped := by
  refine h.shaped hs ?_ (h.bindings ▸ hs.sorted)
  rw [h.bindings, h.roots]
  exact hs.forest

theorem Moved.mono {p q : Prop} (h : Moved p row row') (hpq : p → q) : Moved q row row' :=
  ⟨h.toLater, h.stamps.imp_right fun ⟨hp, hrs⟩ => ⟨hpq hp, hrs⟩⟩

theorem Rewrites.mono {p q : String → Prop} (h : Rewrites p tree tree')
    (hpq : ∀ id, p id → q id) : Rewrites q tree tree' := by
  refine ⟨⟨fun id row' hrow' => ?_, h.kept⟩, h.bindings, h.roots⟩
  obtain ⟨row, hrow, hmv⟩ := h.rows id row' hrow'
  exact ⟨row, hrow, hmv.mono (hpq id)⟩

variable {tables : Store.Tables}

theorem rewrites_updateWhere (tree : Tree)
    {p : String → Grant → Bool} {f : Grant → Grant}
    (htab : tables.grants = tree.tables.grants.updateWhere p f)
    (hf : ∀ id row, tree.grant id = some row → p id row → Moved (fresh id) row (f row)) :
    Rewrites fresh tree { tree with tables } := by
  refine ⟨⟨fun id row' hrow' => ?_, fun id hid => ?_⟩, rfl, rfl⟩
  · simp only [Tree.grant, htab, lookup_updateWhere, Option.map_eq_some_iff] at hrow'
    obtain ⟨row, hrow, rfl⟩ := hrow'
    refine ⟨row, hrow, ?_⟩
    split_ifs with hp
    · exact hf id row hrow hp
    · exact .refl _ row
  · simpa [Tree.grant, htab] using hid

/-- The rows are left alone. -/
theorem Rewrites.of_grants_eq (hgrs : tree'.tables.grants = tree.tables.grants)
    (hbi : tree'.bindings = tree.bindings) (hroo : tree'.roots = tree.roots) :
    Rewrites fresh tree tree' := by
  have hgr : tree'.grant = tree.grant := by
    unfold Tree.grant
    rw [hgrs]
  exact ⟨⟨fun id row hrow => ⟨row, hgr ▸ hrow, .refl _ row⟩, fun id hid => hgr ▸ hid⟩,
    hbi, hroo⟩

theorem rewrites_statement (tree : Tree) {op : Store.Op} (h : Quiet op) (now : ℤ) :
    Rewrites (fun _ => False) tree { tree with tables := op.apply tree.tables now } := by
  cases op with
  | claimGrant =>
    refine rewrites_updateWhere tree (by dsimp only [Store.Op.apply, claimGrant]) ?_
    exact fun _ _ _ _ => .of_eq rfl rfl rfl rfl rfl
  | rotateSession =>
    refine rewrites_updateWhere tree (by dsimp only [Store.Op.apply, rotateSession]) ?_
    exact fun _ _ _ _ => .of_eq rfl rfl rfl rfl rfl
  | amend =>
    simp only [Store.Op.apply, amend]
    split_ifs
    · refine rewrites_updateWhere tree (by
        dsimp only [withdrawGrant, revokeRefreshTokensOf]) ?_
      exact fun _ _ _ _ => .of_eq rfl rfl rfl rfl rfl
    · exact .of_grants_eq rfl rfl rfl
  | issueRefreshToken => exact .of_grants_eq (grants_issueRefreshToken ..) rfl rfl
  | supersede => exact .of_grants_eq (grants_supersede ..) rfl rfl
  | revokeRefreshToken => exact .of_grants_eq (grants_revokeRefreshToken ..) rfl rfl
  | revokeRefreshTokensOf | withdrawGrant | redeemRefreshToken | revokeForSession
  | withdrawClient | deny | purgeDenylist | purgeCutoffs | purgeCodes | purgeRefreshTokens =>
    exact .of_grants_eq rfl rfl rfl
  | _ => cases h

/-! ### Revocations -/

theorem moved_coalesce (hrow : row.revokedAt.isSome ↔ row.revocationReason.isSome) (now : ℤ)
    (reason : RevocationReason) :
    Moved True row { row with
      revokedAt := Store.coalesce row.revokedAt now
      revocationReason := Store.coalesce row.revocationReason reason } := by
  refine ⟨⟨rfl, fun t ht => Store.coalesce_of_eq_some ht now,
    fun r hr => Store.coalesce_of_eq_some hr reason, rfl, rfl⟩, ?_⟩
  cases htm : row.revokedAt with
  | none => exact .inr ⟨trivial, rfl, rfl, Store.coalesce_isSome _ _⟩
  | some =>
    obtain ⟨_, hr⟩ := Option.isSome_iff_exists.1 (hrow.1 (htm ▸ rfl))
    exact .inl ⟨rfl, by rw [hr]; rfl⟩

theorem rewrites_stampRevoked (hs : tree.Shaped) (id : String)
    (reason : RevocationReason) (now : ℤ) :
    Rewrites (· = id) tree { tree with tables := tree.tables.stampRevoked id reason now } := by
  refine rewrites_updateWhere tree (by dsimp only [stampRevoked]) ?_
  exact fun k row hrow hk => (moved_coalesce (hs.stamped k row hrow) now reason).mono
    fun _ => of_decide_eq_true hk

theorem rewrites_revokeGrant (hs : tree.Shaped) (id : String)
    (reason : RevocationReason) (named : Finset String) (now : ℤ) :
    Rewrites (· = id) tree
      { tree with tables := tree.tables.revokeGrant id reason named now } := by
  unfold revokeGrant
  split_ifs
  · refine rewrites_updateWhere tree (by
      dsimp only [stampRevoked, withdrawGrant,
        revokeRefreshTokensOf]) ?_
    exact fun k row hrow hk => (moved_coalesce (hs.stamped k row hrow) now reason).mono
      fun _ => of_decide_eq_true hk
  · exact .of_grants_eq rfl rfl rfl

/-- What comes before a revocation: nothing outside a task, and under one a queued withdrawal. -/
theorem beginWithdrawal_ok (h : tree.beginWithdrawal a reason now = .ok tree') :
    (tree.bindings.lookup a = none ∧ tree' = tree) ∨
    ∃ t task, tree.bindings.lookup a = some t ∧ tree.tasks.lookup t = some task ∧
    tree' = (if task.rootGrantId = a then tree.endTask t now else tree).enqueue a
      { task := t, root := task.rootGrantId, withdrawnAt := now, reason, cursor := none
        completed := false } := by
  simp only [Tree.beginWithdrawal, bind_ok] at h
  obtain ⟨_, -, _, -, h⟩ := h
  cases hbd : tree.bindings.lookup a with
  | none =>
    simp only [hbd, pure_ok] at h
    exact .inl ⟨rfl, h.symm⟩
  | some t =>
    simp only [hbd, bind_ok, okOr_ok, refuseIf_ok, pure_ok, not_not] at h
    obtain ⟨task, htk, -, rfl, rfl⟩ := h
    exact .inr ⟨t, task, rfl, htk, rfl⟩

theorem roots_endTask (tree : Tree) (t : String) (now : ℤ) :
    (tree.endTask t now).roots = tree.roots := by
  funext x
  simp only [Tree.roots, Tree.endTask, lookup_updateWhere, Option.map_map]
  congr 1
  funext task
  split_ifs <;> rfl

/-- A withdrawal is queued beside everything else. -/
theorem enqueue_eq (tree : Tree) (a : String) (w : Withdrawal) :
    tree.enqueue a w = { tree with withdrawals := (tree.enqueue a w).withdrawals } := by
  unfold Tree.enqueue
  split_ifs <;> rfl

theorem rewrites_beginWithdrawal (h : tree.beginWithdrawal a reason now = .ok tree') :
    Rewrites (fun _ => False) tree tree' ∧ tree'.tables = tree.tables := by
  rcases beginWithdrawal_ok h with ⟨-, rfl⟩ | ⟨t, _, -, -, rfl⟩
  · exact ⟨.of_grants_eq rfl rfl rfl, rfl⟩
  · rw [enqueue_eq]
    split_ifs
    · exact ⟨.of_grants_eq rfl rfl (roots_endTask tree t now), rfl⟩
    · exact ⟨.of_grants_eq rfl rfl rfl, rfl⟩

variable {id t : String}

theorem rewrites_revokeCore (hs : tree.Shaped)
    (h : tree.revokeCore id reason named now = .ok tree') : Rewrites (· = id) tree tree' := by
  simp only [Tree.revokeCore, bind_ok, pure_ok] at h
  obtain ⟨_, hbeg, -, -, rfl⟩ := h
  obtain ⟨hrew, htab⟩ := rewrites_beginWithdrawal hbeg
  have hrs := rewrites_revokeGrant hs id reason named now
  rw [htab]
  exact ⟨⟨hrs.rows, hrs.kept⟩, hrew.bindings, hrew.roots⟩

theorem rewrites_sweep (hs : tree.Shaped) (a : String) (w : Withdrawal) (clock : ℤ) :
    Rewrites (fun d => d ∈ tree.candidates w ∧ tree.descends d a) tree (tree.sweep a w clock) := by
  have hrs : Rewrites (fun d => d ∈ tree.candidates w ∧ tree.descends d a) tree
      { tree with
        tables := tree.withdrawAll
          ((tree.candidates w).filter fun id => tree.descends id a) w clock } := by
    refine rewrites_updateWhere tree (by dsimp only [Tree.withdrawAll]) fun k row hrow hp => ?_
    simp only [decide_eq_true_eq] at hp
    have hrsn : row.revocationReason = none := by
      have hiff := hs.stamped k row hrow
      simpa [hp.2] using hiff
    refine ⟨⟨rfl, fun t ht => ?_, fun r hr => ?_, rfl, rfl⟩,
      .inr ⟨by simpa using hp.1, hp.2, rfl, rfl⟩⟩
    · cases hp.2.symm.trans ht
    · cases hrsn.symm.trans hr
  exact ⟨⟨hrs.rows, hrs.kept⟩, rfl, rfl⟩

/-- What a pass does: nothing, or a sweep over the withdrawal that is first. -/
theorem cleanupWithdrawals_cases (tree : Tree) (clock : ℤ) :
    tree.cleanupWithdrawals clock = tree ∨ ∃ a w, Tree.earliest tree.pending = some (a, w) ∧
    tree.cleanupWithdrawals clock = tree.sweep a w clock := by
  unfold Tree.cleanupWithdrawals
  cases hfst : Tree.earliest tree.pending with
  | none => exact .inl rfl
  | some e =>
    obtain ⟨a, w⟩ := e
    simp only
    split_ifs
    · exact .inr ⟨a, w, rfl, rfl⟩
    · exact .inl rfl

theorem rewrites_cleanupWithdrawals (hs : tree.Shaped) (clock : ℤ) :
    Rewrites (fun _ => True) tree (tree.cleanupWithdrawals clock) := by
  rcases cleanupWithdrawals_cases tree clock with heq | ⟨a, w, -, heq⟩
  · rw [heq]
    exact .of_grants_eq rfl rfl rfl
  · rw [heq]
    exact (rewrites_sweep hs a w clock).mono fun _ _ => trivial

/-! ### New grants -/

/-- A grant as it is inserted. -/
def live (grant : Grant) : Grant := { grant with revokedAt := none, revocationReason := none }

/-- The second tree is the first with one new grant, bound as its parent is. -/
structure Inserted (tree tree' : Tree) (grant : Grant) : Prop where
  new : tree.grant grant.id = none
  shallow : ∀ p, grant.parent = some p → ∃ ks, climb tree.up 9 p = some ks
  rows : tree'.grant = Function.update tree.grant grant.id (some (live grant))
  bindings : tree'.bindings.lookup =
    Function.update tree.bindings.lookup grant.id (grant.parent.bind tree.bindings.lookup)
  sorted : tree'.bindings.Sorted
  tasks : tree'.tasks = tree.tasks
  clients : tree'.taskClients = tree.taskClients
  tokens : tree'.taskTokens = tree.taskTokens
  withdrawals : tree'.withdrawals = tree.withdrawals

theorem Inserted.up (h : Inserted tree tree' grant) :
    tree'.up = Function.update tree.up grant.id (some grant.parent) := by
  funext id
  unfold Tree.up
  rw [h.rows]
  by_cases hid : id = grant.id
  · subst hid
    simp [live]
  · simp [Function.update_of_ne hid]

theorem Tree.Shaped.inserted (hs : tree.Shaped) (h : Inserted tree tree' grant) : tree'.Shaped := by
  have hroo : tree'.roots = tree.roots := by
    funext t
    rw [Tree.roots, Tree.roots, h.tasks]
  have hrs : ∀ id row, tree'.grant id = some row →
      (id = grant.id ∧ row = live grant) ∨ tree.grant id = some row := by
    intro id row hrow
    rw [h.rows, Function.update_apply] at hrow
    split_ifs at hrow with hid
    · exact .inl ⟨hid, (Option.some.inj hrow).symm⟩
    · exact .inr hrow
  refine ⟨fun id row hrow => ?_, fun id row hrow => ?_, ?_, h.sorted⟩
  · rcases hrs id row hrow with ⟨rfl, rfl⟩ | hold
    · rfl
    · exact hs.keyed id row hold
  · rcases hrs id row hrow with ⟨-, rfl⟩ | hold
    · simp [live]
    · exact hs.stamped id row hold
  · rw [h.up, h.bindings, hroo]
    refine hs.forest.insert ?_ h.shallow
    rw [Tree.up, h.new, Option.map_none]

section Bind

variable (tree : Tree) (id t : String)

theorem grant_bind : (tree.bind id t).grant = tree.grant := by
  funext k
  unfold Tree.bind
  split_ifs
  · rfl
  · simp only [Tree.grant]
    split
    · rw [grants_bindTask]
    · rfl

/-- A binding is added where there was none. -/
theorem lookup_bind (k : String) : (tree.bind id t).bindings.lookup k =
    (tree.bindings.lookup k).or (if k = id then some t else none) := by
  rw [lookup_or, Tree.bind]
  split_ifs <;> rfl

theorem bind_eq : tree.bind id t =
    { tree with bindings := (tree.bind id t).bindings, tables := (tree.bind id t).tables } := by
  unfold Tree.bind
  split_ifs <;> rfl

@[simp] theorem tasks_bind : (tree.bind id t).tasks = tree.tasks := by rw [bind_eq]

@[simp] theorem taskClients_bind : (tree.bind id t).taskClients = tree.taskClients := by
  rw [bind_eq]

@[simp] theorem taskTokens_bind : (tree.bind id t).taskTokens = tree.taskTokens := by
  rw [bind_eq]

@[simp] theorem withdrawals_bind : (tree.bind id t).withdrawals = tree.withdrawals := by
  rw [bind_eq]

theorem sorted_bind (h : tree.bindings.Sorted) : (tree.bind id t).bindings.Sorted := by
  unfold Tree.bind
  split_ifs
  · exact h
  · exact h.insert id t

end Bind

theorem grant_createGrant (hnew : tree.grant grant.id = none) :
    ({ tree with tables := tree.tables.createGrant grant } : Tree).grant =
      Function.update tree.grant grant.id (some (live grant)) := by
  have hcon : tree.tables.grants.contains grant.id = false := by
    rw [contains, show tree.tables.grants.lookup grant.id = none from hnew]
    rfl
  funext k
  simp only [Tree.grant, createGrant, hcon, Bool.false_eq_true, if_false,
    lookup_insert, Function.update_apply]
  rfl

theorem inserted_of_insertGrant (hs : tree.Shaped)
    (h : tree.insertGrant grant = .ok tree') : Inserted tree tree' grant := by
  simp only [Tree.insertGrant, bind_ok, refuseIf_ok] at h
  obtain ⟨-, hcon, h⟩ := h
  have hnew : tree.grant grant.id = none := by simpa [contains, Tree.grant] using hcon
  -- a grant that does not exist is not bound
  have hfr : tree.bindings.lookup grant.id = none := by
    cases hbd : tree.bindings.lookup grant.id with
    | none => rfl
    | some t =>
      obtain ⟨p, hp⟩ := hs.forest.node grant.id t hbd
      simp [Tree.up, hnew] at hp
  have hnob : tree.bindings.lookup =
      Function.update tree.bindings.lookup grant.id none := by
    rw [← hfr, Function.update_eq_self]
  cases hup : grant.parent with
  | none =>
    simp only [hup, pure_ok] at h
    subst h
    refine ⟨hnew, fun p hp => ?_, grant_createGrant hnew, ?_, hs.sorted, rfl, rfl, rfl, rfl⟩
    · cases hup.symm.trans hp
    · rw [hup]
      exact hnob
  | some parent =>
    simp only [hup, bind_ok, refuseIf_ok, pure_ok] at h
    obtain ⟨-, hcli, rfl⟩ := h
    have hsh (p : String) (hp : grant.parent = some p) :
        ∃ ks, climb tree.up 9 p = some ks := by
      cases hup.symm.trans hp
      exact Option.ne_none_iff_exists'.1 hcli
    cases hbd : tree.bindings.lookup parent with
    | none =>
      refine ⟨hnew, hsh, grant_createGrant hnew, ?_, hs.sorted, rfl, rfl, rfl, rfl⟩
      rw [hup, Option.bind_some, hbd]
      exact hnob
    | some =>
      simp only
      rw [bind_eq]
      refine ⟨hnew, hsh, ?_, ?_, ?_, rfl, rfl, rfl, rfl⟩
      · exact (grant_bind _ _ _).trans (grant_createGrant hnew)
      · funext k
        rw [hup, Option.bind_some, hbd]
        refine (lookup_bind _ _ _ k).trans ?_
        by_cases hk : k = grant.id
        · subst hk
          simp [hfr]
        · simp [hk]
      · exact sorted_bind _ _ _ hs.sorted

/-! ### New tasks -/

/-- The walk that looks for an ancestor finds it wherever it is. -/
theorem descends_iff (hs : tree.Shaped) : tree.descends id a ↔ Under tree.up 10 id a := by
  cases hrow : tree.grant id with
  | none =>
    constructor
    · intro h
      simp [Tree.descends, lineage, hrow] at h
    · rintro ⟨ks, hks, -⟩
      obtain ⟨p, hp⟩ := exists_of_climb hks
      simp [Tree.up, hrow] at hp
  | some =>
    obtain ⟨ks, hks⟩ := hs.climbs hrow
    rw [Tree.descends, lineage_eq_of_climb hks le_rfl]
    simp only [List.any_eq_true, List.mem_filterMap, decide_eq_true_eq]
    constructor
    · rintro ⟨found, ⟨k, hk, hfd⟩, rfl⟩
      rw [hs.keyed k found hfd]
      exact ⟨ks, hks, hk⟩
    · rintro ⟨_, hks', ha⟩
      cases hks.symm.trans hks'
      obtain ⟨_, has, -⟩ := climb_of_mem hks ha
      obtain ⟨_, hp⟩ := exists_of_climb has
      obtain ⟨found, hfd, -⟩ := exists_row_of_up hp
      exact ⟨found, ⟨a, ha, hfd⟩, hs.keyed a found hfd⟩

theorem mem_descendants {root k : String} : k ∈ tree.descendants root ↔ tree.descends k root := by
  simp only [Tree.descendants, List.mem_filter, List.mem_map, and_iff_right_iff_imp]
  intro h
  cases hrow : tree.grant k with
  | none => simp [Tree.descends, lineage, hrow] at h
  | some row => exact ⟨(k, row), mem_of_lookup hrow, rfl⟩

/-- Binding many grants adds their bindings and nothing else. -/
theorem foldl_bind (tree : Tree) (t : String) (ids : List String) :
    let bound := ids.foldl (fun tree id => tree.bind id t) tree
    bound.grant = tree.grant ∧
    (∀ k, bound.bindings.lookup k =
      (tree.bindings.lookup k).or (if k ∈ ids then some t else none)) ∧
    (tree.bindings.Sorted → bound.bindings.Sorted) ∧ bound.tasks = tree.tasks ∧
    bound.taskClients = tree.taskClients ∧ bound.taskTokens = tree.taskTokens ∧
    bound.withdrawals = tree.withdrawals := by
  induction ids generalizing tree with
  | nil => simp
  | cons id ids ih =>
    obtain ⟨hgr, hlk, hso, htk, hcl, hts, hwds⟩ := ih (tree.bind id t)
    refine ⟨hgr.trans (grant_bind tree id t), fun k => ?_,
      fun h => hso (sorted_bind tree id t h), htk.trans (tasks_bind ..),
      hcl.trans (taskClients_bind ..), hts.trans (taskTokens_bind ..),
      hwds.trans (withdrawals_bind ..)⟩
    rw [List.foldl_cons, hlk k, lookup_bind]
    by_cases hk : k = id
    · cases tree.bindings.lookup k <;> simp [hk]
    · cases tree.bindings.lookup k <;> simp [hk]

/-- The second tree is the first with a task for a root and everything below it. -/
structure Activated (tree tree' : Tree) (root : Grant) (t : String) : Prop extends
    RowsMoved (fun _ => False) tree tree' where
  top : tree.up root.id = some none
  free : tree.bindings.lookup root.id = none
  fresh : tree.roots t = none
  bindings : ∀ k, tree'.bindings.lookup k =
    (tree.bindings.lookup k).or (if tree.descends k root.id then some t else none)
  sorted : tree.bindings.Sorted → tree'.bindings.Sorted
  roots : tree'.roots = Function.update tree.roots t (some root.id)
  clients : tree'.taskClients = insert root.client tree.taskClients
  tokens : tree'.taskTokens = tree.taskTokens
  withdrawals : tree'.withdrawals = tree.withdrawals

theorem Tree.Shaped.activated (hs : tree.Shaped)
    (h : Activated tree tree' root t) : tree'.Shaped := by
  refine h.shaped hs ?_ (h.sorted hs.sorted)
  rw [h.roots]
  refine hs.forest.activate h.fresh h.top h.free (fun k x hk => ?_) (fun k hk hun => ?_)
    fun k x hk => ?_
  · rw [h.bindings, hk, Option.some_or]
  · rw [h.bindings, hk, Option.none_or, if_pos ((descends_iff hs).2 hun)]
  · rw [h.bindings] at hk
    cases hold : tree.bindings.lookup k with
    | some =>
      rw [hold] at hk
      exact .inl hk
    | none =>
      rw [hold, Option.none_or, Option.ite_none_right_eq_some, Option.some.injEq] at hk
      exact .inr ⟨hk.2.symm, (descends_iff hs).1 hk.1⟩

theorem activated_of_approve (hs : tree.Shaped) {parseUrl : UrlParser}
    {held : Bool} {approval : Tree.Approval}
    (hup : ∀ row, tree.grant approval.root.id = some row → row.parent = approval.root.parent)
    (h : tree.approve parseUrl held t approval clock = .ok tree') :
    Activated tree tree' approval.root t := by
  simp only [Tree.approve, bind_ok, okOr_ok, refuseIf_ok, pure_ok] at h
  obtain ⟨_, hchk, -, -, -, -, current, hcur, -, -, -, hcf, rfl⟩ := h
  rw [not_or, not_or] at hcf
  obtain ⟨hta, -, hbd⟩ := hcf
  have hrt : approval.root.parent = none := by
    cases hc : Tree.checkApproval parseUrl approval with
    | error => rw [hc] at hchk; cases hchk
    | ok =>
      simp only [Tree.checkApproval, bind_ok, refuseIf_ok, not_or] at hc
      obtain ⟨-, -, -, ⟨-, hup, -⟩, -⟩ := hc
      simpa using hup
  have hfr : tree.bindings.lookup approval.root.id = none := by
    simpa [contains] using hbd
  have htk : tree.tasks.lookup t = none := by simpa [contains] using hta
  have htop : tree.up approval.root.id = some none := by
    rw [Tree.up, hcur, Option.map_some, hup current hcur, hrt]
  obtain ⟨_, hks⟩ := hs.forest.rooted _ _ htop
  unfold Tree.activate
  extract_lets root permissions task recorded
  obtain ⟨hgr, hlk, hso, hkp, hcl, hts, hwds⟩ :=
    foldl_bind (recorded.bind root t) t (tree.descendants root)
  have hmv : Rewrites (fun _ => False) tree { tree with tables := recorded.tables } := by
    refine rewrites_updateWhere tree (by dsimp only [recorded, freezeRoot]) ?_
    exact fun _ _ _ _ => .of_eq rfl rfl rfl rfl rfl
  have hgrs : (recorded.bind root t).grant = recorded.grant := grant_bind recorded root t
  refine ⟨⟨fun id row' hrow' => ?_, fun id hid => ?_⟩, htop, hfr, ?_, fun k => ?_, fun h => ?_,
    ?_, ?_, ?_, ?_⟩
  · rw [hgr, hgrs] at hrow'
    exact hmv.rows id row' hrow'
  · rw [hgr, hgrs]
    exact hmv.kept id hid
  · rw [Tree.roots, htk, Option.map_none]
  · rw [hlk, lookup_bind]
    by_cases hk : k = root
    · subst hk
      rw [if_pos rfl, if_pos ((descends_iff hs).2 (.refl hks))]
      cases recorded.bindings.lookup root <;> rfl
    · rw [if_neg hk, Option.or_none]
      simp only [mem_descendants]
      rfl
  · exact hso (sorted_bind _ _ _ h)
  · funext x
    simp only [Tree.roots, hkp, tasks_bind, recorded, lookup_insert, Function.update_apply]
    split_ifs <;> rfl
  · rw [hcl, taskClients_bind]
  · rw [hts, taskTokens_bind]
  · rw [hwds, withdrawals_bind]

/-! ### Signing -/

/-- What signing does: nothing outside a task; under one, it stores the grant if it is new, claims
it, and records the token. -/
theorem signAccess_ok (h : tree.signAccess principals grant claims clock = .ok (signed, tree')) :
    (∃ after, Issuance.signAccess (tree.store principals) grant claims clock =
      .ok (signed, after)) ∧
    ((tree.taskOf (grant.parent.getD grant.id) = none ∧ tree' = tree) ∨
      ∃ stored, (tree.taskOf (grant.parent.getD grant.id)).isSome ∧
      ((tree.grant grant.id).isSome ∧ stored = tree ∨
        tree.grant grant.id = none ∧ tree.insertGrant grant = .ok stored) ∧
      stored.bindings.contains grant.id ∧ stored.taskTokens.lookup claims.jti = none ∧
      tree' = { stored with
        tables := stored.tables.claimGrant grant.id clock
        taskTokens := stored.taskTokens.insert claims.jti (grant.id, seconds claims.exp) }) := by
  simp only [Tree.signAccess, bind_ok] at h
  obtain ⟨⟨signed', after⟩, hsg, h⟩ := h
  have hsgd : Issuance.signAccess (tree.store principals) grant claims clock =
      .ok (signed', after) := by
    cases hs : Issuance.signAccess (tree.store principals) grant claims clock with
    | error => rw [hs] at hsg; cases hsg
    | ok => rw [hs] at hsg; simpa using hsg
  cases htk : tree.taskOf (grant.parent.getD grant.id) with
  | none =>
    simp only [htk, pure_ok] at h
    obtain ⟨rfl, rfl⟩ := h
    exact ⟨⟨after, hsgd⟩, .inl ⟨rfl, rfl⟩⟩
  | some =>
    simp only [htk, bind_ok, refuseIf_ok, pure_ok, not_or, not_not] at h
    obtain ⟨stored, hsto, -, ⟨hbd, htok⟩, rfl, rfl⟩ := h
    refine ⟨⟨after, hsgd⟩, .inr ⟨stored, rfl, ?_, hbd, ?_, rfl⟩⟩
    · unfold Tree.withGrant at hsto
      split_ifs at hsto with hhl
      · exact .inl ⟨hhl, (Except.ok.inj hsto).symm⟩
      · exact .inr ⟨by simpa using hhl, hsto⟩
    · simpa [contains] using htok

/-- The grant of a signature that was recorded. -/
theorem rewrites_record (tree : Tree) (id jti : String) (expiresAt clock : ℤ) :
    Rewrites (fun _ => False) tree { tree with
      tables := tree.tables.claimGrant id clock
      taskTokens := tree.taskTokens.insert jti (id, expiresAt) } := by
  have hcl : Rewrites (fun _ => False) tree
      { tree with tables := (Store.Op.claimGrant id).apply tree.tables clock } :=
    rewrites_statement tree rfl clock
  exact ⟨⟨hcl.rows, hcl.kept⟩, rfl, rfl⟩

theorem Tree.Shaped.signAccess (hs : tree.Shaped)
    (h : tree.signAccess principals grant claims clock = .ok (signed, tree')) : tree'.Shaped := by
  rcases (signAccess_ok h).2 with ⟨-, rfl⟩ | ⟨_, -, ⟨-, rfl⟩ | ⟨-, hins⟩, -, -, rfl⟩
  · exact hs
  · exact hs.rewrites (rewrites_record ..)
  · exact (hs.inserted (inserted_of_insertGrant hs hins)).rewrites (rewrites_record ..)

/-! ### Every transaction -/

variable {parseUrl : UrlParser} {s s' : Run} {e : Event}

theorem shaped_init : Run.init.tree.Shaped := by
  refine ⟨fun _ _ h => ?_, fun _ _ h => ?_, ⟨fun _ _ h => ?_, fun _ _ h => ?_, fun _ _ _ h => ?_,
    fun _ _ h => ?_, fun _ _ h => ?_⟩, .nil⟩ <;> cases h

/-- What a transaction does: it is rolled back, or succeeds. -/
inductive Transacts (parseUrl : UrlParser) (s : Run) : Event → Run → Prop
  | rolledBack (e : Event) : Transacts parseUrl s e s
  | created {grant : Grant} {tree : Tree} : s.tree.insertGrant grant = .ok tree →
    Transacts parseUrl s (.create grant) { s with tree }
  | signed {principals : Principals} {grant : Grant} {claims signed : TokenClaims} {clock : ℤ}
      {tree : Tree} : claims.task = none →
    s.tree.signAccess principals grant claims clock = .ok (signed, tree) →
    Transacts parseUrl s (.sign principals grant claims clock)
      { tree, issued := (grant.id, signed) :: s.issued }
  | approved {held : Bool} {t : String} {approval : Tree.Approval} {clock : ℤ} {tree : Tree} :
    (Event.approve held t approval clock).Allowed s →
    s.tree.approve parseUrl held t approval clock = .ok tree →
    Transacts parseUrl s (.approve held t approval clock) { s with tree }
  | revoked {id : String} {reason : RevocationReason} {named : Finset String} {now : ℤ}
      {tree : Tree} : s.tree.revokeCore id reason named now = .ok tree →
    Transacts parseUrl s (.revoke id reason named now) { s with tree }
  | stamped (id : String) (reason : RevocationReason) (now : ℤ) :
    Transacts parseUrl s (.stamp id reason now) (s.next parseUrl (.stamp id reason now))
  | cleaned (clock : ℤ) : Transacts parseUrl s (.cleanup clock) (s.next parseUrl (.cleanup clock))
  | stated {op : Store.Op} (now : ℤ) : Quiet op →
    Transacts parseUrl s (.statement op now) (s.next parseUrl (.statement op now))

theorem transacts_of_step (h : (trees parseUrl).step s e s') : Transacts parseUrl s e s' := by
  obtain ⟨halw, rfl⟩ := h
  cases e with
  | stamp id reason now => exact .stamped id reason now
  | cleanup clock => exact .cleaned clock
  | statement op now => exact .stated now halw
  | create =>
    simp only [Run.next]
    split
    · next htr => exact .created htr
    · exact .rolledBack _
  | sign =>
    simp only [Run.next]
    split
    · next htr => exact .signed halw htr
    · exact .rolledBack _
  | approve =>
    simp only [Run.next]
    split
    · next htr => exact .approved halw htr
    · exact .rolledBack _
  | revoke =>
    simp only [Run.next]
    split
    · next htr => exact .revoked htr
    · exact .rolledBack _

/-- Every transaction keeps the shape. -/
theorem shape_step (h : (trees parseUrl).step s e s') (hs : s.tree.Shaped) : s'.tree.Shaped := by
  cases transacts_of_step h with
  | rolledBack => exact hs
  | created htr => exact hs.inserted (inserted_of_insertGrant hs htr)
  | signed _ htr => exact hs.signAccess htr
  | approved halw htr => exact hs.activated (activated_of_approve hs halw htr)
  | revoked htr => exact hs.rewrites (rewrites_revokeCore hs htr)
  | stamped id reason now => exact hs.rewrites (rewrites_stampRevoked hs id reason now)
  | cleaned clock => exact hs.rewrites (rewrites_cleanupWithdrawals hs clock)
  | stated now hqt => exact hs.rewrites (rewrites_statement s.tree hqt now)

/-- Nothing is taken back: a grant keeps its place and its revocation, a binding, a recorded token
and a queued withdrawal stay. -/
structure Grows (tree tree' : Tree) : Prop where
  rows : ∀ id row, tree.grant id = some row →
    ∃ row', tree'.grant id = some row' ∧ Store.Later row row'
  bindings : ∀ id t, tree.bindings.lookup id = some t → tree'.bindings.lookup id = some t
  clients : tree.taskClients ⊆ tree'.taskClients
  tokens : ∀ jti x, tree.taskTokens.lookup jti = some x → tree'.taskTokens.lookup jti = some x
  withdrawals : ∀ a w, tree.withdrawals.lookup a = some w → ∃ w',
    tree'.withdrawals.lookup a = some w' ∧ w'.withdrawnAt = w.withdrawnAt ∧ w'.reason = w.reason

namespace Grows

variable {tree tree' tree'' : Tree}

theorem refl (tree : Tree) : Grows tree tree :=
  ⟨fun _ row hrow => ⟨row, hrow, .refl row⟩, fun _ _ h => h, subset_rfl, fun _ _ h => h,
    fun _ w hw => ⟨w, hw, rfl, rfl⟩⟩

section

variable (h : Grows tree tree')
include h

theorem trans (h' : Grows tree' tree'') : Grows tree tree'' := by
  refine ⟨fun id row hrow => ?_, fun id t ht => h'.bindings id t (h.bindings id t ht),
    h.clients.trans h'.clients, fun jti x hx => h'.tokens jti x (h.tokens jti x hx),
    fun a w hw => ?_⟩
  · obtain ⟨row', hrow', hlat⟩ := h.rows id row hrow
    obtain ⟨row'', hrow'', hlat'⟩ := h'.rows id row' hrow'
    exact ⟨row'', hrow'', hlat.trans hlat'⟩
  · obtain ⟨w', hw', htm, hrsn⟩ := h.withdrawals a w hw
    obtain ⟨w'', hw'', htm', hrsn'⟩ := h'.withdrawals a w' hw'
    exact ⟨w'', hw'', htm'.trans htm, hrsn'.trans hrsn⟩

theorem upward : Extends tree.up tree'.up := by
  intro id _ hp
  obtain ⟨row, hrow, rfl⟩ := exists_row_of_up hp
  obtain ⟨_, hrow', hlat⟩ := h.rows id row hrow
  rw [Tree.up, hrow', Option.map_some, hlat.parent]

/-- What is under a grant stays under it. -/
theorem under {d a : String} (hd : Under tree.up 10 d a) :
    Under tree'.up 10 d a := hd.extends h.upward

/-- A grant that was there comes under no other. -/
theorem under_iff (hs : tree.Shaped) {d a : String} {row : Grant}
    (hrow : tree.grant d = some row) : Under tree'.up 10 d a ↔ Under tree.up 10 d a := by
  obtain ⟨_, hks⟩ := hs.climbs hrow
  exact ⟨fun hd => hd.of_extends h.upward hks, h.under⟩

end

end Grows

/-- Rows that move on, with everything else kept. -/
theorem RowsMoved.grows (h : RowsMoved fresh tree tree')
    (hbi : ∀ id t, tree.bindings.lookup id = some t → tree'.bindings.lookup id = some t)
    (hcl : tree.taskClients ⊆ tree'.taskClients)
    (hts : ∀ jti x, tree.taskTokens.lookup jti = some x → tree'.taskTokens.lookup jti = some x)
    (hwds : ∀ a w, tree.withdrawals.lookup a = some w → ∃ w',
      tree'.withdrawals.lookup a = some w' ∧ w'.withdrawnAt = w.withdrawnAt ∧
      w'.reason = w.reason) : Grows tree tree' := by
  refine ⟨fun id row hrow => ?_, hbi, hcl, hts, hwds⟩
  obtain ⟨row', hrow', hmv⟩ := h.moved hrow
  exact ⟨row', hrow', hmv.toLater⟩

theorem Inserted.grows (hs : tree.Shaped) (h : Inserted tree tree' grant) : Grows tree tree' := by
  refine ⟨fun id row hrow => ⟨row, ?_, .refl row⟩, fun id t ht => ?_, h.clients ▸ subset_rfl,
    fun jti x hx => h.tokens ▸ hx, fun a w hw => ⟨w, h.withdrawals ▸ hw, rfl, rfl⟩⟩
  · have hne : id ≠ grant.id := by
      rintro rfl
      cases h.new.symm.trans hrow
    rw [h.rows, Function.update_of_ne hne, hrow]
  · have hne : id ≠ grant.id := by
      rintro rfl
      obtain ⟨_, hp⟩ := hs.forest.node _ t ht
      simp [Tree.up, h.new] at hp
    rw [h.bindings, Function.update_of_ne hne, ht]

theorem Activated.grows (h : Activated tree tree' root t) : Grows tree tree' := by
  refine h.toRowsMoved.grows (fun id x hx => ?_) ?_ (fun jti x hx => h.tokens ▸ hx)
    fun a w hw => ⟨w, h.withdrawals ▸ hw, rfl, rfl⟩
  · rw [h.bindings, hx, Option.some_or]
  · rw [h.clients]
    exact Finset.subset_insert _ _

theorem lookup_enqueue (tree : Tree) (a : String) (w : Withdrawal) (k : String) :
    (tree.enqueue a w).withdrawals.lookup k =
      (tree.withdrawals.lookup k).or (if k = a then some w else none) := by
  rw [lookup_or, Tree.enqueue]
  split_ifs <;> rfl

/-- What a revocation that commits leaves of everything but the rows and the tasks. -/
theorem revokeCore_ok (h : tree.revokeCore id reason named now = .ok tree') :
    tree.tables.live id ∧ tree'.tables = tree.tables.revokeGrant id reason named now ∧
    tree'.bindings = tree.bindings ∧ tree'.taskClients = tree.taskClients ∧
    tree'.taskTokens = tree.taskTokens ∧
    ((tree.bindings.lookup id = none ∧ tree'.withdrawals = tree.withdrawals ∧
        tree'.tasks = tree.tasks) ∨
      ∃ t task, tree.bindings.lookup id = some t ∧ tree.tasks.lookup t = some task ∧
      (tree'.tasks = if task.rootGrantId = id then (tree.endTask t now).tasks
        else tree.tasks) ∧
      ∀ k, tree'.withdrawals.lookup k = (tree.withdrawals.lookup k).or (if k = id then
        some { task := t, root := task.rootGrantId, withdrawnAt := now, reason, cursor := none
               completed := false } else none)) := by
  simp only [Tree.revokeCore, bind_ok, refuseIf_ok, pure_ok, not_not] at h
  obtain ⟨_, hbeg, -, hlv, rfl⟩ := h
  have htab := (rewrites_beginWithdrawal hbeg).2
  rw [htab] at hlv ⊢
  rcases beginWithdrawal_ok hbeg with ⟨hno, rfl⟩ | ⟨t, task, hbd, htk, rfl⟩
  · exact ⟨hlv, rfl, rfl, rfl, rfl, .inl ⟨hno, rfl, rfl⟩⟩
  · rw [enqueue_eq]
    split_ifs with hrt
    · exact ⟨hlv, rfl, rfl, rfl, rfl,
        .inr ⟨t, task, hbd, htk, (if_pos hrt).symm, lookup_enqueue _ _ _⟩⟩
    · exact ⟨hlv, rfl, rfl, rfl, rfl,
        .inr ⟨t, task, hbd, htk, (if_neg hrt).symm, lookup_enqueue _ _ _⟩⟩

theorem grows_revokeCore (hs : tree.Shaped)
    (h : tree.revokeCore id reason named now = .ok tree') : Grows tree tree' := by
  obtain ⟨-, -, hbi, hcl, hts, hqu⟩ := revokeCore_ok h
  refine (rewrites_revokeCore hs h).toRowsMoved.grows (fun _ _ ht => hbi ▸ ht)
    (hcl ▸ subset_rfl) (fun _ _ hx => hts ▸ hx) fun a w hw => ⟨w, ?_, rfl, rfl⟩
  rcases hqu with ⟨-, hqu, -⟩ | ⟨_, _, -, -, -, hqu⟩
  · rw [hqu, hw]
  · rw [hqu, hw, Option.some_or]

theorem grows_cleanupWithdrawals (hs : tree.Shaped) (clock : ℤ) :
    Grows tree (tree.cleanupWithdrawals clock) := by
  rcases cleanupWithdrawals_cases tree clock with heq | ⟨a, w, -, heq⟩
  · rw [heq]
    exact .refl tree
  · rw [heq]
    refine (rewrites_sweep hs a w clock).toRowsMoved.grows (fun _ _ ht => ht) subset_rfl
      (fun _ _ hx => hx) fun k v hv => ?_
    simp only [Tree.sweep, lookup_updateWhere, hv, Option.map_some]
    exact ⟨_, rfl, by split_ifs <;> rfl, by split_ifs <;> rfl⟩

theorem grows_signAccess (hs : tree.Shaped)
    (h : tree.signAccess principals grant claims clock = .ok (signed, tree')) :
    Grows tree tree' := by
  have hrec (stored : Tree) (htok : stored.taskTokens.lookup claims.jti = none) :
      Grows stored { stored with
        tables := stored.tables.claimGrant grant.id clock
        taskTokens := stored.taskTokens.insert claims.jti (grant.id, seconds claims.exp) } := by
    refine (rewrites_record stored grant.id claims.jti _ clock).toRowsMoved.grows
      (fun _ _ ht => ht) subset_rfl (fun jti x hx => ?_) fun _ w hw => ⟨w, hw, rfl, rfl⟩
    have hne : jti ≠ claims.jti := by
      rintro rfl
      cases htok.symm.trans hx
    rw [lookup_insert_of_ne _ _ hne, hx]
  rcases (signAccess_ok h).2 with ⟨-, rfl⟩ | ⟨_, -, ⟨-, rfl⟩ | ⟨-, hins⟩, -, htok, rfl⟩
  · exact .refl _
  · exact hrec _ htok
  · exact ((inserted_of_insertGrant hs hins).grows hs).trans (hrec _ htok)

/-- No transaction takes anything back. -/
theorem grows_step (h : (trees parseUrl).step s e s') (hs : s.tree.Shaped) :
    Grows s.tree s'.tree := by
  cases transacts_of_step h with
  | rolledBack => exact .refl _
  | created htr => exact (inserted_of_insertGrant hs htr).grows hs
  | signed _ htr => exact grows_signAccess hs htr
  | approved halw htr => exact (activated_of_approve hs halw htr).grows
  | revoked htr => exact grows_revokeCore hs htr
  | stamped id reason now =>
    exact (rewrites_stampRevoked hs id reason now).toRowsMoved.grows (fun _ _ ht => ht) subset_rfl
      (fun _ _ hx => hx) fun _ w hw => ⟨w, hw, rfl, rfl⟩
  | cleaned clock => exact grows_cleanupWithdrawals hs clock
  | stated now hqt =>
    exact (rewrites_statement s.tree hqt now).toRowsMoved.grows (fun _ _ ht => ht) subset_rfl
      (fun _ _ hx => hx) fun _ w hw => ⟨w, hw, rfl, rfl⟩

end AsteriusIdp.AgentTask
