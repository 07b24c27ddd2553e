import AsteriusIdp.AgentTask.Shape

/-!
# The queue of withdrawals

A queued withdrawal belongs to a grant that is revoked, and whatever its cursor has passed is
revoked as well: cleanup stamps what it passes, and nothing new comes up behind the cursor.

That holds of the runs in which no grant is inserted below a revoked one outside the signing
transaction, and no grant of a task is revoked by a writer that queues nothing (`Meets`).

* `queued_step`: the queue stays sound in such a run.
* `issued_step`: so does the record of the tokens that were signed.
-/

namespace AsteriusIdp.AgentTask

open Fallible Transition Forest
open Issuance (Task lineage)

/-- What keeps a transaction from slipping past the queue. -/
def Meets (s : Run) : Event → Prop
  /- The unfenced insertion of a child of a task finds no revoked grant above it. -/
  | .create grant => ∀ p, grant.parent = some p → (s.tree.bindings.lookup p).isSome →
      ∀ row ∈ lineage s.tree.grant 10 p, row.revokedAt = none
  /- Who stamps a grant without queueing it stamps no grant of a task. -/
  | .stamp id _ _ => s.tree.bindings.lookup id = none
  | _ => True

/-- The cursor is past a grant. -/
def Withdrawal.passed (w : Withdrawal) (d : String) : Bool := w.completed ∨ w.cursor.any (d ≤ ·)

/-- A grant is there and revoked. -/
def Tree.Revoked (tree : Tree) (id : String) : Prop :=
  ∃ row, tree.grant id = some row ∧ row.revokedAt.isSome

/-- What a queued withdrawal says about the tree. -/
structure Tree.Queued (tree : Tree) : Prop where
  revoked : ∀ a w, tree.withdrawals.lookup a = some w → tree.Revoked a
  bound : ∀ a w, tree.withdrawals.lookup a = some w → tree.bindings.lookup a = some w.task
  root : ∀ a w, tree.withdrawals.lookup a = some w → tree.roots w.task = some w.root
  passed : ∀ a w, tree.withdrawals.lookup a = some w → ∀ d, Under tree.up 10 d a →
    w.passed d → tree.Revoked d
  sorted : tree.withdrawals.Sorted

section Steps

variable {tree tree' : Tree} {id d a : String} {grant : Grant} {reason : RevocationReason}
  {named : Finset String} {now clock : ℤ} {w : Withdrawal}

theorem Grows.revoked (h : Grows tree tree') (hid : tree.Revoked id) : tree'.Revoked id := by
  obtain ⟨row, hrow, hrev⟩ := hid
  obtain ⟨row', hrow', hlat⟩ := h.rows id row hrow
  obtain ⟨t, ht⟩ := Option.isSome_iff_exists.1 hrev
  exact ⟨row', hrow', by rw [hlat.revokedAt t ht]; rfl⟩

variable {fresh : String → Prop}

theorem RowsMoved.revoked (h : RowsMoved fresh tree tree')
    (hid : tree.Revoked id) : tree'.Revoked id := by
  obtain ⟨_, hrow, hrev⟩ := hid
  obtain ⟨row', hrow', hmv⟩ := h.moved hrow
  obtain ⟨t, ht⟩ := Option.isSome_iff_exists.1 hrev
  exact ⟨row', hrow', by rw [hmv.revokedAt t ht]; rfl⟩

theorem exists_row_of_under (h : Under tree.up 10 d a) : ∃ row, tree.grant d = some row := by
  obtain ⟨_, hks, -⟩ := h
  obtain ⟨_, hp⟩ := exists_of_climb hks
  obtain ⟨row, hrow, -⟩ := exists_row_of_up hp
  exact ⟨row, hrow⟩

/-- The queue stays sound where nothing new comes under a withdrawn grant. -/
theorem Tree.Queued.grows (hq : tree.Queued) (hs : tree.Shaped) (h : Grows tree tree')
    (hqu : tree'.withdrawals = tree.withdrawals)
    (hroo : ∀ t r, tree.roots t = some r → tree'.roots t = some r)
    (hnew : ∀ a w d, tree.withdrawals.lookup a = some w → Under tree'.up 10 d a →
      ∃ row, tree.grant d = some row) : tree'.Queued := by
  refine ⟨fun a w hw => ?_, fun a w hw => ?_, fun a w hw => ?_, fun a w hw d hd hpas => ?_, ?_⟩
  · exact h.revoked (hq.revoked a w (hqu ▸ hw))
  · exact h.bindings a w.task (hq.bound a w (hqu ▸ hw))
  · exact hroo _ _ (hq.root a w (hqu ▸ hw))
  · rw [hqu] at hw
    obtain ⟨_, hrow⟩ := hnew a w d hw hd
    exact h.revoked (hq.passed a w hw d ((h.under_iff hs hrow).1 hd) hpas)
  · rw [hqu]
    exact hq.sorted

section

variable (hs : tree.Shaped) (h : Inserted tree tree' grant)
  (hlive : ∀ p a, grant.parent = some p → (tree.bindings.lookup p).isSome →
    Under tree.up 10 p a → ¬tree.Revoked a)
  (ha : tree.Revoked a) (hbound : (tree.bindings.lookup a).isSome)
include hs h hlive ha hbound

/-- A new grant is not below a revoked grant of a task, if it finds none above its parent. -/
theorem Inserted.not_under : ¬Under tree'.up 10 grant.id a := by
  intro hd
  have hne : a ≠ grant.id := by
    rintro rfl
    obtain ⟨row, hrow, -⟩ := ha
    cases h.new.symm.trans hrow
  have hup : tree'.up grant.id = some grant.parent := by rw [h.up, Function.update_self]
  cases hpar : grant.parent with
  | none =>
    obtain ⟨ks, hks, hmem⟩ := hd
    rw [climb_root (hpar ▸ hup) 9, Option.some.injEq] at hks
    subst hks
    exact hne (List.mem_singleton.1 hmem)
  | some p =>
    -- the revoked grant is above the parent, which is then bound as well
    rcases under_child hd (hpar ▸ hup) with heq | hp
    · exact hne heq
    · obtain ⟨ks, hks⟩ := h.shallow p hpar
      have hun : Under tree.up 10 p a :=
        (hp.of_extends (h.grows hs).upward hks).mono (by omega)
      obtain ⟨_, ht⟩ := Option.isSome_iff_exists.1 hbound
      have hpa := hs.forest.label_of_under hun ht
      exact hlive p a hpar (hpa ▸ rfl) hun ha

/-- The grants below a revoked grant of a task were there before one was inserted. -/
theorem Inserted.stored (hd : Under tree'.up 10 d a) : ∃ row, tree.grant d = some row := by
  have hne : d ≠ grant.id := by
    rintro rfl
    exact h.not_under hs hlive ha hbound hd
  obtain ⟨row, hrow⟩ := exists_row_of_under hd
  rw [h.rows, Function.update_of_ne hne] at hrow
  exact ⟨row, hrow⟩

end

theorem Tree.Queued.inserted (hq : tree.Queued) (hs : tree.Shaped) (h : Inserted tree tree' grant)
    (hlive : ∀ p a, grant.parent = some p → (tree.bindings.lookup p).isSome →
      Under tree.up 10 p a → ¬tree.Revoked a) :
    tree'.Queued := by
  refine hq.grows hs (h.grows hs) h.withdrawals (fun t r hr => ?_) fun a w d hw hd => ?_
  · rwa [Tree.roots, h.tasks]
  · exact h.stored hs hlive (hq.revoked a w hw) (hq.bound a w hw ▸ rfl) hd

theorem Tree.Queued.rewrites (hq : tree.Queued) (hs : tree.Shaped) (h : Rewrites fresh tree tree')
    (hgw : Grows tree tree') (hqu : tree'.withdrawals = tree.withdrawals) : tree'.Queued := by
  refine hq.grows hs hgw hqu (fun t r hr => h.roots ▸ hr) fun a w d _ hd => ?_
  rw [h.up] at hd
  exact exists_row_of_under hd

/-! ### Revocations -/

theorem live_iff :
    tree.tables.live id ↔ ∃ row, tree.grant id = some row ∧ row.revokedAt = none := by
  rw [Store.Tables.live, Option.any_eq_true]
  simp [Tree.grant]

theorem grant_revokeGrant (hs : tree.Shaped) (hlive : tree.tables.live id)
    (htab : tree'.tables = tree.tables.revokeGrant id reason named now) :
    ∃ row, tree'.grant id = some row ∧ row.revokedAt = some now ∧
    row.revocationReason = some reason := by
  obtain ⟨row, hrow, hno⟩ := live_iff.1 hlive
  have hrsn : row.revocationReason = none := by
    have hiff := hs.stamped id row hrow
    simpa [hno] using hiff
  have hlk : tree.tables.grants.lookup id = some row := hrow
  rw [Tree.grant, htab, Store.Tables.revokeGrant, if_pos hlive]
  simp [Store.Tables.stampRevoked, Store.Tables.withdrawGrant, Store.Tables.revokeRefreshTokensOf,
    hlk, hno, hrsn, Store.coalesce]

theorem sorted_enqueue (h : tree.withdrawals.Sorted) : (tree.enqueue a w).withdrawals.Sorted := by
  unfold Tree.enqueue
  split_ifs
  · exact h
  · exact h.insert a w

theorem sorted_revokeCore (hso : tree.withdrawals.Sorted)
    (h : tree.revokeCore id reason named now = .ok tree') : tree'.withdrawals.Sorted := by
  simp only [Tree.revokeCore, bind_ok, pure_ok] at h
  obtain ⟨_, hbeg, -, -, rfl⟩ := h
  rcases beginWithdrawal_ok hbeg with ⟨-, rfl⟩ | ⟨_, _, -, -, rfl⟩
  · exact hso
  · refine sorted_enqueue ?_
    split_ifs <;> exact hso

/-- A withdrawal is in the queue after a revocation if it was before, or if it is the one that was
queued. -/
theorem withdrawals_revokeCore (h : tree.revokeCore id reason named now = .ok tree')
    (hw : tree'.withdrawals.lookup a = some w) : tree.withdrawals.lookup a = some w ∨
      ∃ task, a = id ∧ tree.bindings.lookup id = some w.task ∧
      tree.tasks.lookup w.task = some task ∧ w.root = task.rootGrantId ∧
      w.withdrawnAt = now ∧ w.reason = reason ∧ w.cursor = none ∧ w.completed = false := by
  obtain ⟨-, -, -, -, -, hqu⟩ := revokeCore_ok h
  rcases hqu with ⟨-, hqu, -⟩ | ⟨_, task, hbound, htk, -, hqu⟩
  · exact .inl (hqu ▸ hw)
  · rw [hqu, Option.or_eq_some_iff, Option.ite_none_right_eq_some] at hw
    rcases hw with hw | ⟨-, rfl, hw⟩
    · exact .inl hw
    · cases hw
      exact .inr ⟨task, rfl, hbound, htk, rfl, rfl, rfl, rfl, rfl⟩

theorem Tree.Queued.revokeCore (hq : tree.Queued) (hs : tree.Shaped)
    (h : tree.revokeCore id reason named now = .ok tree') : tree'.Queued := by
  have hgw := grows_revokeCore hs h
  have hrew := rewrites_revokeCore hs h
  obtain ⟨hlive, htab, -⟩ := revokeCore_ok h
  refine ⟨fun a w hw => ?_, fun a w hw => ?_, fun a w hw => ?_, fun a w hw d hd hpas => ?_,
    sorted_revokeCore hq.sorted h⟩
  · rcases withdrawals_revokeCore h hw with hw | ⟨task, rfl, -⟩
    · exact hgw.revoked (hq.revoked a w hw)
    · obtain ⟨row, hrow, htm, -⟩ := grant_revokeGrant hs hlive htab
      exact ⟨row, hrow, htm ▸ rfl⟩
  · rcases withdrawals_revokeCore h hw with hw | ⟨task, rfl, hbound, -⟩
    · exact hgw.bindings a _ (hq.bound a w hw)
    · exact hgw.bindings a _ hbound
  · rw [hrew.roots]
    rcases withdrawals_revokeCore h hw with hw | ⟨task, -, -, htk, hrt, -⟩
    · exact hq.root a w hw
    · rw [Tree.roots, htk, Option.map_some, hrt]
  · rw [hrew.up] at hd
    rcases withdrawals_revokeCore h hw with hw | ⟨_, -, -, -, -, -, -, hcsr, hcpl⟩
    · exact hgw.revoked (hq.passed a w hw d hd hpas)
    · simp [Withdrawal.passed, hcsr, hcpl] at hpas

/-! ### Cleanup passes -/

theorem mem_of_earliest {es : List (String × Withdrawal)} {e : String × Withdrawal}
    (h : Tree.earliest es = some e) : e ∈ es := by
  induction es with
  | nil => cases h
  | cons e' es ih =>
    rw [Tree.earliest] at h
    cases hrs : Tree.earliest es with
    | none =>
      simp only [hrs, Option.some.injEq] at h
      exact h ▸ List.mem_cons_self
    | some =>
      simp only [hrs] at h
      split_ifs at h <;> cases h
      · exact List.mem_cons_self
      · exact List.mem_cons_of_mem e' (ih hrs)

/-- The withdrawal that a pass works on is in the queue and not complete. -/
theorem first_pending (hq : tree.Queued) (h : Tree.earliest tree.pending = some (a, w)) :
    tree.withdrawals.lookup a = some w ∧ w.completed = false := by
  obtain ⟨hmem, hpd⟩ := List.mem_filter.1 (mem_of_earliest h)
  exact ⟨hq.sorted.lookup_of_mem hmem, by simpa using hpd⟩

theorem mem_remaining (hs : tree.Shaped) :
    d ∈ tree.remaining w ↔ tree.bindings.lookup d = some w.task ∧ w.cursor.any (d ≤ ·) = false := by
  simp only [Tree.remaining, List.mem_map, List.mem_filter, Prod.exists, exists_and_right,
    exists_eq_right, Bool.not_eq_true]
  grind [hs.sorted.lookup_of_mem, Entries.mem_of_lookup]

theorem pairwise_remaining (hs : tree.Shaped) (w : Withdrawal) :
    (tree.remaining w).Pairwise (· < ·) :=
  List.pairwise_map.2 (List.Pairwise.filter _ hs.sorted)

/-- In an increasing list, what is no larger than the last of the first `n` is among them. -/
theorem mem_take_of_le {l : List String} (hl : l.Pairwise (· < ·)) {n : ℕ} {x : String} (hd : d ∈ l)
    (hx : (l.take n).getLast? = some x) (hle : d ≤ x) : d ∈ l.take n := by
  rw [← List.take_append_drop n l] at hd hl
  rcases List.mem_append.1 hd with hd | hd
  · exact hd
  · have hlt := (List.pairwise_append.1 hl).2.2 x (List.mem_of_getLast? hx) d hd
    exact absurd hlt (not_lt.2 hle)

/-- What a pass has passed when it is done, it had passed before or it looked at. -/
theorem mem_candidates_of_passed (hs : tree.Shaped) (hbound : tree.bindings.lookup d = some w.task)
    (hnot : w.cursor.any (d ≤ ·) = false)
    (hpas : (tree.candidates w).length < Tree.batch ∨
      ((tree.candidates w).getLast?.or w.cursor).any (d ≤ ·)) :
    d ∈ tree.candidates w := by
  have hmem : d ∈ tree.remaining w := (mem_remaining hs).2 ⟨hbound, hnot⟩
  rcases hpas with hsh | hcsr
  · rw [Tree.candidates] at hsh ⊢
    rw [List.length_take] at hsh
    rwa [List.take_of_length_le (by omega)]
  · cases hla : (tree.candidates w).getLast? with
    | none =>
      rw [hla, Option.none_or, hnot] at hcsr
      cases hcsr
    | some =>
      rw [hla, Option.some_or, Option.any_some, decide_eq_true_eq] at hcsr
      exact mem_take_of_le (pairwise_remaining hs w) hmem hla hcsr

/-- What a sweep makes of a row that it looks at. -/
theorem grant_sweep (a : String) (w : Withdrawal) (clock : ℤ) (d : String) :
    (tree.sweep a w clock).grant d = (tree.grant d).map fun row =>
      if (d ∈ tree.candidates w ∧ tree.descends d a) ∧ row.revokedAt = none then
        { row with revokedAt := some w.withdrawnAt, revocationReason := some w.reason }
      else row := by
  simp [Tree.sweep, Tree.withdrawAll, Tree.grant]

theorem revoked_sweep (clock : ℤ) {row : Grant} (hrow : tree.grant d = some row)
    (hd : d ∈ tree.candidates w) (ha : tree.descends d a) : (tree.sweep a w clock).Revoked d := by
  rw [Tree.Revoked, grant_sweep, hrow, Option.map_some]
  refine ⟨_, rfl, ?_⟩
  split_ifs with h
  · rfl
  · exact Option.isSome_iff_ne_none.2 fun hno => h ⟨⟨hd, ha⟩, hno⟩

theorem lookup_withdrawals_sweep (a : String) (w : Withdrawal) (clock : ℤ) (k : String) :
    (tree.sweep a w clock).withdrawals.lookup k = (tree.withdrawals.lookup k).map fun row =>
      if k = a then
        { row with
          cursor := (tree.candidates w).getLast?.or row.cursor
          completed := (tree.candidates w).length < Tree.batch }
      else row := by
  simp [Tree.sweep]

/-- A withdrawal after a sweep is one from before, or the one that was worked on with its cursor
moved on. -/
theorem withdrawals_sweep {k : String} {v : Withdrawal} (hw : tree.withdrawals.lookup a = some w)
    (hv : (tree.sweep a w clock).withdrawals.lookup k = some v) :
    (k ≠ a ∧ tree.withdrawals.lookup k = some v) ∨
    (k = a ∧ v = { w with
      cursor := (tree.candidates w).getLast?.or w.cursor
      completed := (tree.candidates w).length < Tree.batch }) := by
  rw [lookup_withdrawals_sweep, Option.map_eq_some_iff] at hv
  obtain ⟨_, hrow, hv⟩ := hv
  split_ifs at hv with hk
  · subst hk
    cases hw.symm.trans hrow
    exact .inr ⟨rfl, hv.symm⟩
  · exact .inl ⟨hk, hv ▸ hrow⟩

theorem Tree.Queued.sweep (hq : tree.Queued) (hs : tree.Shaped)
    (hw : tree.withdrawals.lookup a = some w) (clock : ℤ)
    (hgw : Grows tree (tree.sweep a w clock)) : (tree.sweep a w clock).Queued := by
  have hup := (rewrites_sweep hs a w clock).up
  refine ⟨fun k v hv => ?_, fun k v hv => ?_, fun k v hv => ?_, fun k v hv d hd hpas => ?_, ?_⟩
  · rcases withdrawals_sweep hw hv with ⟨-, hv⟩ | ⟨rfl, -⟩
    · exact hgw.revoked (hq.revoked k v hv)
    · exact hgw.revoked (hq.revoked k w hw)
  · rcases withdrawals_sweep hw hv with ⟨-, hv⟩ | ⟨rfl, rfl⟩
    · exact hq.bound k v hv
    · exact hq.bound k w hw
  · rcases withdrawals_sweep hw hv with ⟨-, hv⟩ | ⟨rfl, rfl⟩
    · exact hq.root k v hv
    · exact hq.root k w hw
  · rw [hup] at hd
    rcases withdrawals_sweep hw hv with ⟨-, hv⟩ | ⟨rfl, rfl⟩
    · exact hgw.revoked (hq.passed k v hv d hd hpas)
    · cases hnot : w.cursor.any (d ≤ ·) with
      | true =>
        refine hgw.revoked (hq.passed k w hw d hd ?_)
        simp [Withdrawal.passed, hnot]
      | false =>
        obtain ⟨row, hrow⟩ := exists_row_of_under hd
        have hbound := hs.forest.label_of_under hd (hq.bound k w hw)
        refine revoked_sweep clock hrow (mem_candidates_of_passed hs hbound hnot ?_)
          ((descends_iff hs).2 hd)
        simpa [Withdrawal.passed] using hpas
  · dsimp only [Tree.sweep]
    exact hq.sorted.updateWhere _ _

theorem Tree.Queued.cleanupWithdrawals (hq : tree.Queued) (hs : tree.Shaped) (clock : ℤ) :
    (tree.cleanupWithdrawals clock).Queued := by
  have hgw := grows_cleanupWithdrawals hs clock
  rcases cleanupWithdrawals_cases tree clock with heq | ⟨_, _, hfst, heq⟩
  · rwa [heq]
  · rw [heq] at hgw ⊢
    exact hq.sweep hs (first_pending hq hfst).1 clock hgw

/-! ### Signing -/

variable {principals : Principals} {claims signed : TokenClaims}

/-- Whoever signs for a grant finds no revoked grant above it, nor above its parent if it is
new. -/
theorem not_revoked_of_signAccess
    (h : tree.signAccess principals grant claims clock = .ok (signed, tree')) {start : String}
    (hsta : start = if (tree.grant grant.id).isSome then grant.id else grant.parent.getD grant.id)
    (ha : Under tree.up 10 start a) : ¬tree.Revoked a := by
  obtain ⟨⟨_, hsg⟩, -⟩ := signAccess_ok h
  obtain ⟨_, hks, hmem⟩ := ha
  rintro ⟨_, hrow, hrev⟩
  have hlive := lineage_live_of_signAccess hsg hsta hks hmem hrow
  rw [hlive] at hrev
  cases hrev

theorem Tree.Queued.record (hq : tree.Queued) (id jti : String) (expiresAt clock : ℤ) :
    Tree.Queued { tree with
      tables := tree.tables.claimGrant id clock
      taskTokens := tree.taskTokens.insert jti (id, expiresAt) } := by
  have hrew := rewrites_record tree id jti expiresAt clock
  refine ⟨fun a w hw => ?_, hq.bound, hq.root, fun a w hw d hd hpas => ?_, hq.sorted⟩
  · exact hrew.revoked (hq.revoked a w hw)
  · rw [hrew.up] at hd
    exact hrew.revoked (hq.passed a w hw d hd hpas)

theorem Tree.Queued.signAccess (hq : tree.Queued) (hs : tree.Shaped)
    (h : tree.signAccess principals grant claims clock = .ok (signed, tree')) : tree'.Queued := by
  rcases (signAccess_ok h).2 with ⟨-, rfl⟩ | ⟨_, -, ⟨-, rfl⟩ | ⟨hnew, hins⟩, -, -, rfl⟩
  · exact hq
  · exact hq.record ..
  · have hin := inserted_of_insertGrant hs hins
    refine (hq.inserted hs hin ?_).record ..
    intro _ _ hup _ hun
    refine not_revoked_of_signAccess h ?_ hun
    rw [hnew, hup]
    rfl

end Steps

/-! ### Every transaction that meets the condition -/

variable {parseUrl : UrlParser} {s s' : Run} {e : Event} {tree tree' : Tree}

/-- A walk that finds no revoked grant has seen every grant above. -/
theorem not_revoked_of_lineage {p a : String}
    (hlive : ∀ row ∈ lineage tree.grant 10 p, row.revokedAt = none)
    (ha : Under tree.up 10 p a) : ¬tree.Revoked a := by
  obtain ⟨_, hks, hmem⟩ := ha
  rintro ⟨row, hrow, hrev⟩
  rw [lineage_eq_of_climb hks le_rfl] at hlive
  rw [hlive row (List.mem_filterMap.2 ⟨a, hmem, hrow⟩)] at hrev
  cases hrev

theorem queued_step (h : (trees parseUrl).step s e s') (hme : Meets s e)
    (hs : s.tree.Shaped) (hq : s.tree.Queued) : s'.tree.Queued := by
  have hgw := grows_step h hs
  cases transacts_of_step h with
  | rolledBack => exact hq
  | created htr =>
    refine hq.inserted hs (inserted_of_insertGrant hs htr) fun p a hup hbound hun => ?_
    exact not_revoked_of_lineage (hme p hup hbound) hun
  | signed _ htr => exact hq.signAccess hs htr
  | @approved _ taskId _ _ _ halw htr =>
    have had := activated_of_approve hs halw htr
    refine hq.grows hs hgw had.withdrawals (fun t r hr => ?_) fun a w d _ hd => ?_
    · have hne : t ≠ taskId := by
        rintro rfl
        cases had.fresh.symm.trans hr
      rw [had.roots, Function.update_of_ne hne, hr]
    · rw [had.up] at hd
      exact exists_row_of_under hd
  | revoked htr => exact hq.revokeCore hs htr
  | stamped id reason now => exact hq.rewrites hs (rewrites_stampRevoked hs id reason now) hgw rfl
  | cleaned clock => exact hq.cleanupWithdrawals hs clock
  | stated now hqt => exact hq.rewrites hs (rewrites_statement s.tree hqt now) hgw rfl

/-! ### The tokens that were signed -/

/-- What is known of a token that was signed: its grant is stored, and a task token is recorded. -/
structure Tracked (tree : Tree) (x : String × TokenClaims) : Prop where
  stored : ∃ row, tree.grant x.1 = some row
  recorded : ∀ t, x.2.task = some t → ∃ exp, tree.taskTokens.lookup x.2.jti = some (x.1, exp)

variable {x : String × TokenClaims}

theorem Tracked.grows (hx : Tracked tree x) (h : Grows tree tree') : Tracked tree' x := by
  refine ⟨?_, fun t ht => ?_⟩
  · obtain ⟨row, hrow⟩ := hx.stored
    obtain ⟨row', hrow', -⟩ := h.rows x.1 row hrow
    exact ⟨row', hrow'⟩
  · obtain ⟨exp, hexp⟩ := hx.recorded t ht
    exact ⟨exp, h.tokens _ _ hexp⟩

/-- A bound grant has a task. -/
theorem Tree.Shaped.taskOf_isSome (hs : tree.Shaped) {id : String}
    (h : (tree.bindings.lookup id).isSome) : (tree.taskOf id).isSome := by
  obtain ⟨t, ht⟩ := Option.isSome_iff_exists.1 h
  obtain ⟨_, hr, -⟩ := hs.forest.below id t ht
  rw [Tree.roots, Option.map_eq_some_iff] at hr
  obtain ⟨_, htk, -⟩ := hr
  rw [Tree.taskOf, ht, Option.bind_some, htk]
  rfl

variable {grant : Grant} {claims signed : TokenClaims}

/-- What signing makes of the claims, and for which grants. -/
theorem signed_of_signAccess {store after : Issuance.Store} {clock : ℤ}
    (h : Issuance.signAccess store grant claims clock = .ok (signed, after)) :
    signed.jti = claims.jti ∧
    ((store.tasks (grant.parent.getD grant.id) = none ∧ signed.task = claims.task ∧
        store.tasks grant.id = none ∧ (store.grants grant.id).isSome) ∨
      ∃ task, store.tasks (grant.parent.getD grant.id) = some task ∧
      signed.task = some (task.id, task.approvalRevision)) := by
  unfold Issuance.signAccess at h
  split at h
  · rename_i htk
    simp only [Issuance.signUnbound, bind_ok, refuseIf_ok, pure_ok, not_or] at h
    obtain ⟨_, ⟨_, hlk, -, -, -, ⟨-, hno⟩, hcap⟩, rfl, -⟩ := h
    obtain ⟨exp, -, rfl⟩ := Issuance.capAuthorityExpiry_spec hcap
    obtain ⟨_, row, -, hrow, -⟩ := Issuance.lockIssuanceAuthority_spec hlk
    exact ⟨rfl, .inl ⟨htk, rfl, by simpa using hno, by rw [hrow]; rfl⟩⟩
  · rename_i task htk
    simp only [Issuance.signFenced, bind_ok, pure_ok] at h
    obtain ⟨_, -, _, -, _, -, _, -, _, -, _, hcap, rfl, -⟩ := h
    obtain ⟨exp, -, rfl⟩ := Issuance.capAuthorityExpiry_spec hcap
    exact ⟨rfl, .inr ⟨task, htk, rfl⟩⟩

theorem tracked_signAccess (hs : tree.Shaped) {principals : Principals}
    {clock : ℤ} (htk : claims.task = none)
    (h : tree.signAccess principals grant claims clock = .ok (signed, tree')) :
    Tracked tree' (grant.id, signed) := by
  obtain ⟨⟨_, hsg⟩, hcas⟩ := signAccess_ok h
  obtain ⟨hjti, hsgd⟩ := signed_of_signAccess hsg
  rcases hcas with ⟨hno, rfl⟩ | ⟨stored, -, hsto, hbound, -, rfl⟩
  · rcases hsgd with ⟨-, hsm, -, hrow⟩ | ⟨_, hso, -⟩
    · refine ⟨Option.isSome_iff_exists.1 hrow, fun t ht => ?_⟩
      cases (hsm.trans htk).symm.trans ht
    · cases hno.symm.trans hso
  · have hsh : stored.Shaped := by
      rcases hsto with ⟨-, rfl⟩ | ⟨-, hins⟩
      · exact hs
      · exact hs.inserted (inserted_of_insertGrant hs hins)
    obtain ⟨t, ht⟩ := Option.isSome_iff_exists.1 hbound
    obtain ⟨_, hp⟩ := hsh.forest.node _ t ht
    obtain ⟨_, hrow, -⟩ := exists_row_of_up hp
    obtain ⟨row', hrow', -⟩ :=
      (rewrites_record stored grant.id claims.jti (seconds claims.exp) clock).moved hrow
    refine ⟨⟨row', hrow'⟩, fun _ _ => ⟨seconds claims.exp, ?_⟩⟩
    rw [hjti]
    exact Entries.lookup_insert_self _ _ _

/-- A token was signed before, or a transaction has just signed it. -/
theorem issued_cases (h : (trees parseUrl).step s e s')
    (hx : x ∈ s'.issued) : x ∈ s.issued ∨ ∃ principals grant claims signed clock tree,
      e = .sign principals grant claims clock ∧ x = (grant.id, signed) ∧ claims.task = none ∧
      s.tree.signAccess principals grant claims clock = .ok (signed, tree) ∧ s'.tree = tree := by
  cases transacts_of_step h with
  | signed htk htr =>
    rcases List.mem_cons.1 hx with rfl | hx
    · exact .inr ⟨_, _, _, _, _, _, rfl, rfl, htk, htr, rfl⟩
    · exact .inl hx
  | _ => exact .inl hx

/-- The record of the tokens that were signed stays true. -/
theorem issued_step (h : (trees parseUrl).step s e s') (hs : s.tree.Shaped)
    (his : ∀ x ∈ s.issued, Tracked s.tree x) : ∀ x ∈ s'.issued, Tracked s'.tree x := by
  intro x hx
  have hgw := grows_step h hs
  rcases issued_cases h hx with hold | ⟨_, _, _, _, _, _, -, rfl, hcls, hsg, heq⟩
  · exact (his x hold).grows hgw
  · rw [heq]
    exact tracked_signAccess hs hcls hsg

end AsteriusIdp.AgentTask
