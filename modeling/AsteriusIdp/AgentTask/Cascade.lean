import AsteriusIdp.AgentTask.Queue

/-!
# What the revocation of a grant does to the tree below it

The revocation stamps one grant.  Every check walks up the whole lineage, so the grants below are
inactive at once, and no token is signed for them any more.  Cleanup passes then stamp them one
after the other, and there is only so much for them to do.

* `grantActive_eq_false`, `tokenActive_eq_false`: a revoked grant of a task switches off what is
  below it.
* `untouched_revokeCore`, `untouched_cleanupWithdrawals`: nothing else changes.
* `work_cleanupWithdrawals_lt`: every pass that finds a pending withdrawal gets some work done.
* `withdrawal_cascades`: what holds after a revocation, in every later state.
-/

namespace AsteriusIdp.AgentTask

open Fallible Transition Forest Entries
open Issuance (Task lineage authorityRows exampleUrl)

section Status

variable {tree tree' : Tree} {d g : String}

/-! ### Below a revoked grant -/

theorem activeGrant_eq_false (hd : Under tree.up 10 d g) (hg : tree.Revoked g)
    (principals : Principals) (task : String) (revision clock : ℤ) :
    Issuance.activeGrant (tree.store principals) d task revision clock = false := by
  obtain ⟨ks, hks, hmem⟩ := hd
  obtain ⟨row, hrow, hrev⟩ := hg
  have hrs : lineage tree.grant 11 d = ks.filterMap tree.grant :=
    lineage_eq_of_climb hks (by omega)
  have hin : row ∈ lineage tree.grant 11 d := hrs ▸ List.mem_filterMap.2 ⟨g, hmem, hrow⟩
  unfold Issuance.activeGrant
  split
  · rfl
  · refine decide_eq_false ?_
    rintro ⟨-, -, -, -, -, -, -, -, hlv, -⟩
    rw [(hlv row hin).1] at hrev
    cases hrev

/-- A grant below a revoked grant of a task is inactive. -/
theorem grantActive_eq_false (hs : tree.Shaped) (hd : Under tree.up 10 d g) (hg : tree.Revoked g)
    (hbound : (tree.bindings.lookup g).isSome) (principals : Principals) (clock : ℤ) :
    tree.grantActive principals d clock = false := by
  obtain ⟨_, ht⟩ := Option.isSome_iff_exists.1 hbound
  have hdt := hs.forest.label_of_under hd ht
  obtain ⟨_, htk⟩ := Option.isSome_iff_exists.1 (hs.taskOf_isSome (by rw [hdt]; rfl))
  unfold Tree.grantActive
  split
  · rfl
  · simp only [htk]
    exact activeGrant_eq_false hd hg principals _ _ clock

/-- So is a token that was signed for one, under the task or for a client that may only act under
one. -/
theorem tokenActive_eq_false {x : String × TokenClaims} (hx : Tracked tree x)
    (hd : Under tree.up 10 x.1 g) (hg : tree.Revoked g)
    (htok : x.2.task.isSome ∨ x.2.clientId ∈ tree.taskClients) (principals : Principals)
    (clock : ℤ) : tree.tokenActive principals x.2 clock = false := by
  cases htk : x.2.task with
  | none =>
    have hcli : x.2.clientId ∈ tree.taskClients := by
      rcases htok with hso | hcli
      · rw [htk] at hso
        cases hso
      · exact hcli
    simp [Tree.tokenActive, htk, hcli]
  | some p =>
    obtain ⟨task, revision⟩ := p
    obtain ⟨exp, hexp⟩ := hx.recorded _ htk
    have hin := activeGrant_eq_false hd hg principals task revision clock
    have hlk : Issuance.activeLink (tree.store principals) x.2.jti task revision clock = none := by
      unfold Issuance.activeLink
      rw [show (tree.store principals).taskTokens x.2.jti = some (x.1, exp) from hexp]
      simp [hin]
    simp [Tree.tokenActive, htk, hlk]

/-! ### Everywhere else -/

/-- What a status check reads of a grant, and with it what the check reports, is as it was. -/
structure Untouched (tree tree' : Tree) (d : String) : Prop where
  row : tree'.grant d = tree.grant d
  grant : ∀ principals clock,
    tree'.grantActive principals d clock = tree.grantActive principals d clock
  token : ∀ claims, Tracked tree (d, claims) → ∀ principals clock,
    tree'.tokenActive principals claims clock = tree.tokenActive principals claims clock

theorem untouched_of_rows (hs : tree.Shaped) (hup : tree'.up = tree.up)
    (hsf : tree'.grant d = tree.grant d)
    (hrs : ∀ a, Under tree.up 10 d a → tree'.grant a = tree.grant a)
    (htk : tree'.taskOf d = tree.taskOf d) (hcl : tree'.taskClients = tree.taskClients)
    (hts : tree'.taskTokens = tree.taskTokens) : Untouched tree tree' d := by
  -- the walk up from the grant finds the rows it found
  have hlin : lineage tree'.grant 11 d = lineage tree.grant 11 d := by
    cases hrow : tree.grant d with
    | none => simp [lineage, hsf, hrow]
    | some =>
      obtain ⟨ks, hks⟩ := hs.climbs hrow
      have hks' : climb tree'.up 10 d = some ks := hup ▸ hks
      have hold : lineage tree.grant 11 d = ks.filterMap tree.grant :=
        lineage_eq_of_climb hks (by omega)
      have hnew : lineage tree'.grant 11 d = ks.filterMap tree'.grant :=
        lineage_eq_of_climb hks' (by omega)
      rw [hold, hnew]
      exact List.filterMap_congr fun a ha => hrs a ⟨ks, hks, ha⟩
  have hact (principals : Principals) (task : String) (revision clock : ℤ) :
      Issuance.activeGrant (tree'.store principals) d task revision clock =
        Issuance.activeGrant (tree.store principals) d task revision clock := by
    simp [Issuance.activeGrant, Tree.store, htk, hlin]
  refine ⟨hsf, fun principals clock => ?_, fun claims hx principals clock => ?_⟩
  · simp [Tree.grantActive, hsf, htk, hcl, hact]
  · cases hcls : claims.task with
    | none => simp [Tree.tokenActive, hcls, hcl]
    | some p =>
      obtain ⟨exp, hexp⟩ := hx.recorded _ hcls
      have hexp' : tree'.taskTokens.lookup claims.jti = some (d, exp) := hts ▸ hexp
      have hlk : Issuance.activeLink (tree'.store principals) claims.jti p.1 p.2 clock =
          Issuance.activeLink (tree.store principals) claims.jti p.1 p.2 clock := by
        simp [Issuance.activeLink, hact,
          show (tree'.store principals).taskTokens claims.jti = some (d, exp) from hexp',
          show (tree.store principals).taskTokens claims.jti = some (d, exp) from hexp]
      simp only [Tree.tokenActive, hcls, hlk]
      -- the link leads to the grant itself, if anywhere
      have hto (id : String) (hid : Issuance.activeLink (tree.store principals) claims.jti p.1 p.2
          clock = some id) : id = d := by
        simp only [Issuance.activeLink,
          show (tree.store principals).taskTokens claims.jti = some (d, exp) from hexp] at hid
        split_ifs at hid
        exact (Option.some.inj hid).symm
      cases hid : Issuance.activeLink (tree.store principals) claims.jti p.1 p.2 clock with
      | none => rfl
      | some id => rw [hto id hid, Option.any_some, Option.any_some, hsf]

variable {reason : RevocationReason} {named : Finset String}

theorem grant_revokeGrant_of_ne {id : String}
    {now : ℤ} (htab : tree'.tables = tree.tables.revokeGrant id reason named now)
    (hne : d ≠ id) : tree'.grant d = tree.grant d := by
  rw [Tree.grant, htab, Store.Tables.revokeGrant]
  split_ifs
  · simp [Store.Tables.stampRevoked, Store.Tables.withdrawGrant,
      Store.Tables.revokeRefreshTokensOf, hne, Tree.grant]
  · rfl

/-- A revocation touches nothing outside the subtree of the grant. -/
theorem untouched_revokeCore (hs : tree.Shaped)
    {now : ℤ} (h : tree.revokeCore g reason named now = .ok tree')
    (hd : ¬Under tree.up 10 d g) : Untouched tree tree' d := by
  obtain ⟨hlv, htab, hbi, hcl, hts, hqu⟩ := revokeCore_ok h
  have hne : d ≠ g := by
    rintro rfl
    obtain ⟨_, hrow, -⟩ := live_iff.1 hlv
    obtain ⟨_, hks⟩ := hs.climbs hrow
    exact hd (.refl hks)
  refine untouched_of_rows hs (rewrites_revokeCore hs h).up (grant_revokeGrant_of_ne htab hne)
    (fun a ha => grant_revokeGrant_of_ne htab ?_) ?_ hcl hts
  · rintro rfl
    exact hd ha
  · rw [Tree.taskOf, Tree.taskOf, hbi]
    rcases hqu with ⟨-, -, htk⟩ | ⟨t, task, -, hta, htk, -⟩
    · rw [htk]
    · cases hbound : tree.bindings.lookup d with
      | none => rfl
      | some t' =>
        rw [Option.bind_some, htk]
        split_ifs with hrt
        · -- the task that ended is not the one of a grant outside the tree of its root
          have hoth : t' ≠ t := by
            rintro rfl
            obtain ⟨_, hr, hun⟩ := hs.forest.below d t' hbound
            rw [Tree.roots, hta, Option.map_some, Option.some.injEq, hrt] at hr
            exact hd (hr ▸ hun)
          simp [Tree.endTask, hoth]
        · rfl

/-- A cleanup pass touches nothing outside the subtrees that are withdrawn. -/
theorem untouched_cleanupWithdrawals (hs : tree.Shaped) (hq : tree.Queued) (clock : ℤ)
    (hd : ∀ a w, tree.withdrawals.lookup a = some w → ¬Under tree.up 10 d a) :
    Untouched tree (tree.cleanupWithdrawals clock) d := by
  rcases cleanupWithdrawals_cases tree clock with heq | ⟨a, w, hfst, heq⟩
  · rw [heq]
    exact untouched_of_rows hs rfl rfl (fun _ _ => rfl) rfl rfl rfl
  · rw [heq]
    have hout := hd a w (first_pending hq hfst).1
    have hsm (k : String) (hk : ¬Under tree.up 10 k a) :
        (tree.sweep a w clock).grant k = tree.grant k := by
      have hno : ¬tree.descends k a := fun hde => hk ((descends_iff hs).1 hde)
      simp [grant_sweep, hno]
    refine untouched_of_rows hs (rewrites_sweep hs a w clock).up (hsm d hout)
      (fun k hk => hsm k fun hka => hout (hk.trans hka)) rfl rfl rfl

end Status

/-! ### How much cleanup has to do -/

/-- A pass of the cleanup. -/
def Event.isCleanup : Event → Bool
  | .cleanup _ => true
  | _ => false

/-- What is left to do for a withdrawal: the grants behind the cursor, and the pass that completes
it. -/
def Tree.left (tree : Tree) (w : Withdrawal) : ℕ :=
  if w.completed then 0 else (tree.remaining w).length + 1

/-- What is left to do altogether. -/
def Tree.work (tree : Tree) : ℕ := (tree.withdrawals.map fun e => tree.left e.2).sum

section Work

variable {tree tree' : Tree}

theorem work_congr (hbi : tree'.bindings = tree.bindings)
    (hwds : tree'.withdrawals = tree.withdrawals) : tree'.work = tree.work := by
  have hle : tree'.left = tree.left := by
    funext w
    rw [Tree.left, Tree.left, Tree.remaining, Tree.remaining, hbi]
  rw [Tree.work, Tree.work, hwds, hle]

variable {w : Withdrawal}

theorem completed_of_work_eq_zero (h : tree.work = 0) {a : String}
    (hw : tree.withdrawals.lookup a = some w) : w.completed = true := by
  have hle : tree.left w = 0 := by
    refine List.sum_eq_zero_iff.1 h _ ?_
    exact List.mem_map.2 ⟨(a, w), mem_of_lookup hw, rfl⟩
  unfold Tree.left at hle
  split_ifs at hle with hcpl
  exact hcpl

theorem exists_earliest {es : List (String × Withdrawal)} (h : es ≠ []) :
    ∃ e, Tree.earliest es = some e := by
  cases es with
  | nil => exact absurd rfl h
  | cons e =>
    rw [Tree.earliest]
    split
    · exact ⟨e, rfl⟩
    · split_ifs
      · exact ⟨e, rfl⟩
      · exact ⟨_, rfl⟩

/-- Once the cursor is on a grant that was behind it, there is less behind it. -/
theorem length_remaining_lt (hs : tree.Shaped) {x : String}
    (hx : x ∈ tree.remaining w) (completed : Bool) :
    (tree.remaining { w with cursor := some x, completed }).length < (tree.remaining w).length := by
  have hbeh := ((mem_remaining hs).1 hx).2
  have hsub : (tree.remaining { w with cursor := some x, completed }).Sublist
      (tree.remaining w) := by
    refine List.Sublist.map _ (List.monotone_filter_right _ fun e he => ?_)
    simp only [Option.any_some, decide_eq_true_eq] at he ⊢
    refine ⟨he.1, fun hcsr => ?_⟩
    cases hc : w.cursor with
    | none => simp [hc] at hcsr
    | some =>
      simp only [hc, Option.any_some, decide_eq_true_eq, decide_eq_false_iff_not, not_le]
        at hcsr hbeh
      exact he.2 (hcsr.trans hbeh.le)
  refine lt_of_le_of_ne hsub.length_le fun hlen => ?_
  rw [← hsub.eq_of_length hlen, mem_remaining hs] at hx
  simp at hx

/-- A pass over a withdrawal leaves less to do for it. -/
theorem left_sweep_lt (hs : tree.Shaped) (hw : w.completed = false) :
    tree.left { w with
      cursor := (tree.candidates w).getLast?.or w.cursor
      completed := (tree.candidates w).length < Tree.batch } < tree.left w := by
  have hold : tree.left w = (tree.remaining w).length + 1 := by simp [Tree.left, hw]
  rw [hold]
  unfold Tree.left
  split_ifs with hsh
  · omega
  · -- a full batch has a last grant, and the cursor moves there
    cases hla : (tree.candidates w).getLast? with
    | none =>
      rw [List.getLast?_eq_none_iff] at hla
      simp [hla, Tree.batch] at hsh
    | some x =>
      have hx : x ∈ tree.remaining w := List.mem_of_mem_take (List.mem_of_getLast? hla)
      rw [Option.some_or]
      have hlt := length_remaining_lt hs hx ((tree.candidates w).length < Tree.batch)
      omega

theorem work_sweep_lt (hs : tree.Shaped) (hq : tree.Queued) {a : String}
    (hw : tree.withdrawals.lookup a = some w) (hcpl : w.completed = false) (clock : ℤ) :
    (tree.sweep a w clock).work < tree.work := by
  have hlt := left_sweep_lt hs hcpl
  -- entry by entry: the one under `a` is the one that is worked on
  have hent (e : String × Withdrawal) (he : e ∈ tree.withdrawals) (hea : e.1 = a) : e.2 = w :=
    Option.some.inj ((hq.sorted.lookup_of_mem (hea ▸ he)).symm.trans hw)
  have hwo : (tree.sweep a w clock).work = (tree.withdrawals.map fun e =>
      tree.left (if e.1 = a then { e.2 with
        cursor := (tree.candidates w).getLast?.or e.2.cursor
        completed := (tree.candidates w).length < Tree.batch } else e.2)).sum := by
    simp only [Tree.work, Tree.sweep, updateWhere, List.map_map]
    congr 1
    refine List.map_congr_left fun e _ => ?_
    simp only [Function.comp_apply, decide_eq_true_eq]
    split_ifs <;> rfl
  rw [hwo]
  refine List.sum_lt_sum _ _ (fun e he => ?_) ⟨(a, w), mem_of_lookup hw, ?_⟩
  · split_ifs with hea
    · rw [hent e he hea]
      exact hlt.le
    · exact le_rfl
  · simpa using hlt

/-- A pass that finds something to do gets some of it done. -/
theorem work_cleanupWithdrawals_lt (hs : tree.Shaped) (hq : tree.Queued) (h : tree.work ≠ 0)
    (clock : ℤ) : (tree.cleanupWithdrawals clock).work < tree.work := by
  have hpd : tree.pending ≠ [] := by
    intro hnil
    refine h (List.sum_eq_zero_iff.2 fun n hn => ?_)
    obtain ⟨e, he, rfl⟩ := List.mem_map.1 hn
    have hcpl := List.filter_eq_nil_iff.1 hnil e he
    rw [Bool.not_eq_true, Bool.not_eq_false'] at hcpl
    rw [Tree.left, if_pos hcpl]
  obtain ⟨⟨a, w⟩, hfst⟩ := exists_earliest hpd
  obtain ⟨hw, hcpl⟩ := first_pending hq hfst
  -- the root can be locked and the task is there, as long as the queue is sound
  have hrt := hq.root a w hw
  obtain ⟨row, hrow, -⟩ := exists_row_of_up (hs.forest.top _ _ hrt).1
  have htk : tree.tasks.contains w.task := by
    rw [Tree.roots, Option.map_eq_some_iff] at hrt
    obtain ⟨_, htk, -⟩ := hrt
    rw [Entries.contains, htk]
    rfl
  have heq : tree.cleanupWithdrawals clock = tree.sweep a w clock := by
    simp only [Tree.cleanupWithdrawals, hfst]
    rw [if_pos ⟨by rw [show tree.grant w.root = some row from hrow]; rfl, htk⟩]
  rw [heq]
  exact work_sweep_lt hs hq hw hcpl clock

end Work

/-! ### One transaction after a revocation -/

/-- What holds in every state of a run whose transactions meet the condition. -/
structure Run.Sound (s : Run) : Prop where
  shaped : s.tree.Shaped
  queued : s.tree.Queued
  issued : ∀ x ∈ s.issued, Tracked s.tree x

/-- A grant carries the time and the reason of the revocation of a grant above it. -/
def Tree.Marked (tree : Tree) (d : String) : Prop :=
  ∃ row a w, tree.grant d = some row ∧ Under tree.up 10 d a ∧
    tree.withdrawals.lookup a = some w ∧ row.revokedAt = some w.withdrawnAt ∧
    row.revocationReason = some w.reason

section Marks

variable {tree tree' : Tree} {d id : String}

theorem Grows.marked (h : Grows tree tree') (hd : tree.Marked d) : tree'.Marked d := by
  obtain ⟨row, a, w, hrow, hun, hw, htm, hrsn⟩ := hd
  obtain ⟨row', hrow', hlat⟩ := h.rows d row hrow
  obtain ⟨w', hw', htm', hrsn'⟩ := h.withdrawals a w hw
  refine ⟨row', a, w', hrow', h.under hun, hw', ?_, ?_⟩
  · rw [htm', hlat.revokedAt _ htm]
  · rw [hrsn', hlat.reason _ hrsn]

theorem RowsMoved.revoked_or_fresh {fresh : String → Prop} (h : RowsMoved fresh tree tree')
    (hd : tree'.Revoked d) : tree.Revoked d ∨ fresh d := by
  obtain ⟨row', hrow', hrev⟩ := hd
  obtain ⟨row, hrow, hmv⟩ := h.rows d row' hrow'
  rcases hmv.stamps with ⟨htm, -⟩ | ⟨hfr, -⟩
  · exact .inl ⟨row, hrow, htm ▸ hrev⟩
  · exact .inr hfr

theorem Inserted.revoked_of_ne {grant : Grant} (h : Inserted tree tree' grant)
    (hne : d ≠ grant.id) (hd : tree'.Revoked d) : tree.Revoked d := by
  rwa [Tree.Revoked, h.rows, Function.update_of_ne hne] at hd

variable {reason : RevocationReason} {named : Finset String}

/-- The withdrawal that a revocation queues carries its time and its reason. -/
theorem lookup_withdrawals_revokeCore (hq : tree.Queued)
    {now : ℤ} (h : tree.revokeCore id reason named now = .ok tree')
    (hbound : (tree.bindings.lookup id).isSome) :
    ∃ w, tree'.withdrawals.lookup id = some w ∧ w.withdrawnAt = now ∧ w.reason = reason := by
  obtain ⟨hlv, -, -, -, -, hqu⟩ := revokeCore_ok h
  rcases hqu with ⟨hno, -, -⟩ | ⟨_, _, -, -, -, hqu⟩
  · rw [hno] at hbound
    cases hbound
  · -- a grant that is live was not queued before
    have hno : tree.withdrawals.lookup id = none := by
      cases hold : tree.withdrawals.lookup id with
      | none => rfl
      | some w =>
        obtain ⟨_, hrow, hrev⟩ := hq.revoked id w hold
        obtain ⟨_, hrow', hno⟩ := live_iff.1 hlv
        cases hrow.symm.trans hrow'
        rw [hno] at hrev
        cases hrev
    refine ⟨_, by rw [hqu, hno, if_pos rfl, Option.none_or], rfl, rfl⟩

theorem marked_revokeCore (hs : tree.Shaped) (hq : tree.Queued)
    {now : ℤ} (h : tree.revokeCore id reason named now = .ok tree')
    (hbound : (tree.bindings.lookup id).isSome) : tree'.Marked id := by
  obtain ⟨hlv, htab, -⟩ := revokeCore_ok h
  obtain ⟨row, hrow, htm, hrsn⟩ := grant_revokeGrant hs hlv htab
  obtain ⟨w, hw, rfl, rfl⟩ := lookup_withdrawals_revokeCore hq h hbound
  obtain ⟨_, hks⟩ := (hs.rewrites (rewrites_revokeCore hs h)).climbs hrow
  exact ⟨row, id, w, hrow, .refl hks, hw, htm, hrsn⟩

/-- A sweep marks what it stamps. -/
theorem revoked_or_marked_sweep (hs : tree.Shaped) {a : String} {w : Withdrawal} (clock : ℤ)
    (hw : tree.withdrawals.lookup a = some w) (hd : (tree.sweep a w clock).Revoked d) :
    tree.Revoked d ∨ (tree.sweep a w clock).Marked d := by
  obtain ⟨_, hrow', hrev⟩ := hd
  have hrow := hrow'
  rw [grant_sweep, Option.map_eq_some_iff] at hrow
  obtain ⟨row, hrow, heq⟩ := hrow
  split_ifs at heq with hstp
  · obtain ⟨⟨-, hde⟩, -⟩ := hstp
    have hw' : (tree.sweep a w clock).withdrawals.lookup a = _ :=
      lookup_withdrawals_sweep a w clock a
    rw [hw, Option.map_some, if_pos rfl] at hw'
    subst heq
    refine .inr ⟨_, a, _, hrow', ?_, hw', rfl, rfl⟩
    rw [(rewrites_sweep hs a w clock).up]
    exact (descends_iff hs).1 hde
  · subst heq
    exact .inl ⟨row, hrow, hrev⟩

end Marks

section Steps

variable {parseUrl : UrlParser} {s s' : Run} {e : Event} {a d : String}

theorem sound_init : Run.init.Sound := by
  refine ⟨shaped_init, ⟨fun _ _ h => ?_, fun _ _ h => ?_, fun _ _ h => ?_, fun _ _ h => ?_, .nil⟩,
    fun _ h => ?_⟩ <;> cases h

theorem sound_step (h : ((trees parseUrl).restrict Meets).step s e s') (hs : s.Sound) : s'.Sound :=
  ⟨shape_step h.1 hs.shaped, queued_step h.1 h.2 hs.shaped hs.queued,
    issued_step h.1 hs.shaped hs.issued⟩

theorem Run.Sound.of_path {ls : List Event} (hs : s.Sound)
    (h : ((trees parseUrl).restrict Meets).Path s ls s') : s'.Sound :=
  h.invariant (fun _ _ _ hst => sound_step hst) hs

section

variable (h : ((trees parseUrl).restrict Meets).step s e s') (hs : s.tree.Shaped)
  (ha : s.tree.Revoked a) (hbound : (s.tree.bindings.lookup a).isSome)
include h hs ha hbound

/-- Nothing new comes below a revoked grant of a task. -/
theorem stored_step (hd : Under s'.tree.up 10 d a) : ∃ row, s.tree.grant d = some row := by
  obtain ⟨hst, hme⟩ := h
  cases transacts_of_step hst with
  | rolledBack => exact exists_row_of_under hd
  | created htr =>
    refine (inserted_of_insertGrant hs htr).stored hs ?_ ha hbound hd
    exact fun p a hup hp hun => not_revoked_of_lineage (hme p hup hp) hun
  | signed _ htr =>
    rcases (signAccess_ok htr).2 with
      ⟨-, rfl⟩ | ⟨stored, -, ⟨-, rfl⟩ | ⟨hnew, hins⟩, -, -, rfl⟩
    · exact exists_row_of_under hd
    · rw [(rewrites_record ..).up] at hd
      exact exists_row_of_under hd
    · rw [(rewrites_record ..).up] at hd
      refine (inserted_of_insertGrant hs hins).stored hs ?_ ha hbound hd
      intro _ _ hup _ hun
      refine not_revoked_of_signAccess htr ?_ hun
      rw [hnew, hup]
      rfl
  | approved halw htr =>
    rw [(activated_of_approve hs halw htr).up] at hd
    exact exists_row_of_under hd
  | revoked htr =>
    rw [(rewrites_revokeCore hs htr).up] at hd
    exact exists_row_of_under hd
  | stamped id reason now =>
    exact exists_row_of_under ((rewrites_stampRevoked hs id reason now).up ▸ hd)
  | cleaned clock => exact exists_row_of_under ((rewrites_cleanupWithdrawals hs clock).up ▸ hd)
  | stated now hqt => exact exists_row_of_under ((rewrites_statement s.tree hqt now).up ▸ hd)

/-- No token is minted below a revoked grant of a task. -/
theorem minted_step :
    ∃ new, s'.issued = new ++ s.issued ∧ ∀ x ∈ new, ¬Under s'.tree.up 10 x.1 a := by
  have hsto := fun d => stored_step (d := d) h hs ha hbound
  have hgw := grows_step h.1 hs
  cases transacts_of_step h.1 with
  | @signed _ grant _ signed _ _ _ htr =>
    refine ⟨[(grant.id, signed)], rfl, fun x hx hun => ?_⟩
    obtain rfl := List.mem_singleton.1 hx
    obtain ⟨_, hrow⟩ := hsto _ hun
    have hold := (hgw.under_iff hs hrow).1 hun
    refine not_revoked_of_signAccess htr ?_ hold ha
    rw [hrow]
    rfl
  | _ => exact ⟨[], rfl, nofun⟩

end

/-- A grant of a task that is newly revoked carries the time and the reason of a revocation that
was queued. -/
theorem revoked_step (h : ((trees parseUrl).restrict Meets).step s e s') (hs : s.Sound)
    (hbound : (s.tree.bindings.lookup d).isSome) (hd : s'.tree.Revoked d) :
    s.tree.Revoked d ∨ s'.tree.Marked d := by
  have hsh := hs.shaped
  have hold (grant : Grant) (hnew : s.tree.grant grant.id = none) : d ≠ grant.id := by
    rintro rfl
    obtain ⟨t, ht⟩ := Option.isSome_iff_exists.1 hbound
    obtain ⟨_, hp⟩ := hsh.forest.node _ t ht
    simp [Tree.up, hnew] at hp
  have hqt {tree : Tree} (hmv : RowsMoved (fun _ => False) s.tree tree)
      (hd : tree.Revoked d) : s.tree.Revoked d := (hmv.revoked_or_fresh hd).resolve_right id
  obtain ⟨hst, hme⟩ := h
  cases transacts_of_step hst with
  | rolledBack => exact .inl hd
  | @created grant _ htr =>
    have hin := inserted_of_insertGrant hsh htr
    exact .inl (hin.revoked_of_ne (hold grant hin.new) hd)
  | @signed _ grant _ _ _ _ _ htr =>
    rcases (signAccess_ok htr).2 with
      ⟨-, rfl⟩ | ⟨stored, -, ⟨-, rfl⟩ | ⟨hnew, hins⟩, -, -, rfl⟩
    · exact .inl hd
    · exact .inl (hqt (rewrites_record ..).toRowsMoved hd)
    · have hin := ((rewrites_record ..).toRowsMoved.revoked_or_fresh hd).resolve_right id
      exact .inl ((inserted_of_insertGrant hsh hins).revoked_of_ne (hold grant hnew)
        hin)
  | approved halw htr =>
    exact .inl (hqt (activated_of_approve hsh halw htr).toRowsMoved hd)
  | revoked htr =>
    rcases (rewrites_revokeCore hsh htr).toRowsMoved.revoked_or_fresh hd with hd | rfl
    · exact .inl hd
    · exact .inr (marked_revokeCore hsh hs.queued htr hbound)
  | stamped id reason now =>
    rcases (rewrites_stampRevoked hsh id reason now).toRowsMoved.revoked_or_fresh hd with
      hd | rfl
    · exact .inl hd
    · rw [show s.tree.bindings.lookup d = none from hme] at hbound
      cases hbound
  | cleaned clock =>
    simp only [Run.next] at hd ⊢
    rcases cleanupWithdrawals_cases s.tree clock with heq | ⟨_, _, hfst, heq⟩
    · exact .inl (heq ▸ hd)
    · rw [heq] at hd ⊢
      exact revoked_or_marked_sweep hsh clock (first_pending hs.queued hfst).1 hd
  | stated now hstat => exact .inl (hqt (rewrites_statement s.tree hstat now).toRowsMoved hd)

end Steps

/-! ### Every state after a revocation -/

section Runs

variable {parseUrl : UrlParser} {s₀ s s' : Run} {e : Event} {ls : List Event} {g : String}
  {now : ℤ} {reason : RevocationReason}

/-- What the run since the revocation of `g` has kept; `s₀` is the state before it. -/
structure Since (s₀ s : Run) (g : String) (now : ℤ) (reason : RevocationReason) : Prop where
  grows : Grows s₀.tree s.tree
  queued : ∃ w, s.tree.withdrawals.lookup g = some w ∧ w.withdrawnAt = now ∧ w.reason = reason
  minted : ∃ new, s.issued = new ++ s₀.issued ∧ ∀ x ∈ new, ¬Under s.tree.up 10 x.1 g
  stored : ∀ d, Under s.tree.up 10 d g → ∃ row, s₀.tree.grant d = some row
  marked : ∀ d, Under s.tree.up 10 d g → s.tree.Revoked d →
    s₀.tree.Revoked d ∨ s.tree.Marked d

variable {tree : Tree}

theorem since_revoke (hs : s₀.Sound) {named : Finset String}
    (h : s₀.tree.revokeCore g reason named now = .ok tree)
    (hbound : (s₀.tree.bindings.lookup g).isSome) :
    Since s₀ { s₀ with tree } g now reason := by
  have hup := (rewrites_revokeCore hs.shaped h).up
  refine ⟨grows_revokeCore hs.shaped h, lookup_withdrawals_revokeCore hs.queued h hbound,
    ⟨[], rfl, by simp⟩, fun d hd => ?_, fun d _ hd => ?_⟩
  · rw [hup] at hd
    exact exists_row_of_under hd
  · rcases (rewrites_revokeCore hs.shaped h).toRowsMoved.revoked_or_fresh hd with hd | rfl
    · exact .inl hd
    · exact .inr (marked_revokeCore hs.shaped hs.queued h hbound)

theorem since_step (h : ((trees parseUrl).restrict Meets).step s e s') (hs : s.Sound)
    (hsnc : Since s₀ s g now reason) : Since s₀ s' g now reason := by
  have hgw := grows_step h.1 hs.shaped
  obtain ⟨w, hw, htm, hrsn⟩ := hsnc.queued
  have hrev := hs.queued.revoked g w hw
  have hbound := hs.queued.bound g w hw
  have hso : (s.tree.bindings.lookup g).isSome := by rw [hbound]; rfl
  -- what is below the grant now was below it before
  have hbef (d : String) (hd : Under s'.tree.up 10 d g) : Under s.tree.up 10 d g := by
    obtain ⟨_, hrow⟩ := stored_step h hs.shaped hrev hso hd
    exact (hgw.under_iff hs.shaped hrow).1 hd
  refine ⟨hsnc.grows.trans hgw, ?_, ?_, fun d hd => hsnc.stored d (hbef d hd),
    fun d hd hrev' => ?_⟩
  · obtain ⟨w', hw', htm', hrsn'⟩ := hgw.withdrawals g w hw
    exact ⟨w', hw', htm'.trans htm, hrsn'.trans hrsn⟩
  · obtain ⟨new, hnew, hout⟩ := hsnc.minted
    obtain ⟨more, hmo, hout'⟩ := minted_step h hs.shaped hrev hso
    refine ⟨more ++ new, by rw [hmo, hnew, List.append_assoc], fun x hx hun => ?_⟩
    rcases List.mem_append.1 hx with hx | hx
    · exact hout' x hx hun
    · exact hout x hx (hbef x.1 hun)
  · have hd' := hbef d hd
    have hdbo := hs.shaped.forest.label_of_under hd' hbound
    rcases revoked_step h hs (by rw [hdbo]; rfl) hrev' with hold | hmk
    · rcases hsnc.marked d hd' hold with hold | hmk
      · exact .inl hold
      · exact .inr (hgw.marked hmk)
    · exact .inr hmk

theorem since_of_path (h : ((trees parseUrl).restrict Meets).Path s ls s') (hs : s.Sound)
    (hsnc : Since s₀ s g now reason) : s'.Sound ∧ Since s₀ s' g now reason :=
  h.invariant (I := fun s => s.Sound ∧ Since s₀ s g now reason)
    (fun _ _ _ hst hi => ⟨sound_step hst hi.1, since_step hst hi.1 hi.2⟩) ⟨hs, hsnc⟩

/-- A pass, or a transaction that neither binds a grant to a task nor queues a withdrawal: for
instance a refresh, or a mint for a grant that is stored. -/
def Steady (parseUrl : UrlParser) (s : Run) (e : Event) : Prop :=
  e.isCleanup ∨ ((s.next parseUrl e).tree.bindings = s.tree.bindings ∧
    (s.next parseUrl e).tree.withdrawals = s.tree.withdrawals)

/-- With every pass less is left to do, until nothing is. -/
theorem work_of_path (h : ((trees parseUrl).restrict fun s e =>
    Meets s e ∧ Steady parseUrl s e).Path s ls s') (hs : s.Sound) :
    s'.tree.work ≤ s.tree.work - ls.countP Event.isCleanup := by
  induction h with
  | nil => simp
  | @cons s s₁ s₂ e ls hst _ ih =>
    obtain ⟨hst, hme, hste⟩ := hst
    have ih := ih (sound_step ⟨hst, hme⟩ hs)
    obtain ⟨-, rfl⟩ := hst
    by_cases hcle : e.isCleanup
    · rw [List.countP_cons_of_pos hcle]
      cases e with
      | cleanup clock =>
        -- a pass over an idle queue changes nothing
        by_cases hz : s.tree.work = 0
        · have hid : s.tree.cleanupWithdrawals clock = s.tree := by
            rcases cleanupWithdrawals_cases s.tree clock with heq | ⟨a, w, hfst, -⟩
            · exact heq
            · obtain ⟨hw, hcpl⟩ := first_pending hs.queued hfst
              cases (completed_of_work_eq_zero hz hw).symm.trans hcpl
          simp only [Run.next, hid] at ih
          omega
        · have hlt := work_cleanupWithdrawals_lt hs.shaped hs.queued hz clock
          simp only [Run.next] at ih
          omega
      | _ => cases hcle
    · rw [List.countP_cons_of_neg hcle]
      obtain ⟨hbi, hwds⟩ := hste.resolve_left hcle
      rwa [work_congr hbi hwds] at ih

/-- A row carries the revocation that the grant had before. -/
def Tree.Keeps (tree : Tree) (d : String) (row : Grant) : Prop :=
  ∃ row₀, tree.grant d = some row₀ ∧ row₀.revokedAt.isSome ∧ row.revokedAt = row₀.revokedAt ∧
    row.revocationReason = row₀.revocationReason

/-- What is true of a state `s` after the revocation of the grant `g` of a task in the state `s₀`,
at a time and for a reason. -/
structure Withdrawn (parseUrl : UrlParser) (s₀ s : Run) (g : String) (now : ℤ)
    (reason : RevocationReason) : Prop where
  /-- No access token was minted since for the grant or a descendant. -/
  minted : ∃ new, s.issued = new ++ s₀.issued ∧ ∀ x ∈ new, ¬Under s.tree.up 10 x.1 g
  /-- No descendant was created since. -/
  stored : ∀ d, Under s.tree.up 10 d g → ∃ row, s₀.tree.grant d = some row
  /-- Every grant of the subtree is inactive. -/
  grants : ∀ d, Under s.tree.up 10 d g → ∀ principals clock,
    s.tree.grantActive principals d clock = false
  /-- So is every token of the subtree that was signed under the task, or for a client that may only
  act under one. -/
  tokens : ∀ x ∈ s.issued, Under s.tree.up 10 x.1 g →
    x.2.task.isSome ∨ x.2.clientId ∈ s.tree.taskClients → ∀ principals clock,
    s.tree.tokenActive principals x.2 clock = false
  /-- A pass changes nothing for a grant that no withdrawn grant is above. -/
  outside : ∀ clock d, (∀ a w, s.tree.withdrawals.lookup a = some w → ¬Under s.tree.up 10 d a) →
    Untouched s.tree (s.tree.cleanupWithdrawals clock) d
  /-- What a cursor has passed is revoked. -/
  behind : ∀ a w, s.tree.withdrawals.lookup a = some w → ∀ d, Under s.tree.up 10 d a →
    w.passed d → s.tree.Revoked d
  /-- Each bounded walk from a grant sees its whole lineage. -/
  walks : ∀ d row, s.tree.grant d = some row → ∃ ks, climb s.tree.up 10 d = some ks ∧
    lineage s.tree.grant 10 d = ks.filterMap s.tree.grant ∧
    lineage s.tree.grant 11 d = ks.filterMap s.tree.grant ∧
    authorityRows s.tree.grant 10 d = some (ks.filterMap s.tree.grant)
  /-- After so many passes every descendant is revoked: as it was before, or with the time and the
  reason of the revocation of a grant above it, which is this one if there is no other. -/
  cleaned : ∃ n, ∀ ls s',
    ((trees parseUrl).restrict fun s e => Meets s e ∧ Steady parseUrl s e).Path s ls s' →
    n ≤ ls.countP Event.isCleanup → ∀ d, Under s'.tree.up 10 d g → ∃ row,
      s'.tree.grant d = some row ∧ row.revokedAt.isSome ∧
      (s₀.tree.Keeps d row ∨ s'.tree.Marked d) ∧
      (¬s₀.tree.Revoked d →
        (∀ a, Under s'.tree.up 10 d a → a ≠ g → s'.tree.withdrawals.lookup a = none) →
        row.revokedAt = some now ∧ row.revocationReason = some reason)

variable {d : String} {row : Grant}

theorem Tree.Shaped.walks (hs : tree.Shaped)
    (hrow : tree.grant d = some row) : ∃ ks, climb tree.up 10 d = some ks ∧
      lineage tree.grant 10 d = ks.filterMap tree.grant ∧
      lineage tree.grant 11 d = ks.filterMap tree.grant ∧
      authorityRows tree.grant 10 d = some (ks.filterMap tree.grant) := by
  obtain ⟨ks, hks⟩ := hs.climbs hrow
  exact ⟨ks, hks, lineage_eq_of_climb hks le_rfl, lineage_eq_of_climb hks (by omega),
    authorityRows_eq_of_climb hks⟩

theorem Grows.keeps {tree' : Tree} (h : Grows tree tree') (hs : tree.Shaped)
    (hd : tree.Revoked d) (hrow : tree'.grant d = some row) : tree.Keeps d row := by
  obtain ⟨row₀, hrow₀, hrev⟩ := hd
  obtain ⟨_, hrow', hlat⟩ := h.rows d row₀ hrow₀
  cases hrow.symm.trans hrow'
  obtain ⟨t, ht⟩ := Option.isSome_iff_exists.1 hrev
  obtain ⟨r, hr⟩ := Option.isSome_iff_exists.1 ((hs.stamped d row₀ hrow₀).1 hrev)
  exact ⟨row₀, hrow₀, hrev, by rw [ht, hlat.revokedAt t ht], by rw [hr, hlat.reason r hr]⟩

/-- Where `g` is the only withdrawn grant above, a mark is that of its revocation. -/
theorem Tree.Marked.of_only {w : Withdrawal} (h : tree.Marked d) (hrow : tree.grant d = some row)
    (hw : tree.withdrawals.lookup g = some w)
    (hon : ∀ a, Under tree.up 10 d a → a ≠ g → tree.withdrawals.lookup a = none) :
    row.revokedAt = some w.withdrawnAt ∧ row.revocationReason = some w.reason := by
  obtain ⟨_, a, _, hrow', hun, hw', htm, hrsn⟩ := h
  cases hrow.symm.trans hrow'
  have ha : a = g := by
    by_contra hne
    cases (hon a hun hne).symm.trans hw'
  subst ha
  cases hw.symm.trans hw'
  exact ⟨htm, hrsn⟩

/-- Once the queue is empty, the descendants of a withdrawn grant are revoked. -/
theorem revoked_of_work_eq_zero (hs : s.Sound) (hsnc : Since s₀ s g now reason)
    (hwo : s.tree.work = 0) (hd : Under s.tree.up 10 d g) : s.tree.Revoked d := by
  obtain ⟨w, hw, -, -⟩ := hsnc.queued
  refine hs.queued.passed g w hw d hd ?_
  simp [Withdrawal.passed, completed_of_work_eq_zero hwo hw]

theorem Since.withdrawn (hsnc : Since s₀ s g now reason) (hs₀ : s₀.Sound) (hs : s.Sound) :
    Withdrawn parseUrl s₀ s g now reason := by
  obtain ⟨w, hw, -, -⟩ := hsnc.queued
  have hrev := hs.queued.revoked g w hw
  have hbound : (s.tree.bindings.lookup g).isSome := by rw [hs.queued.bound g w hw]; rfl
  refine ⟨hsnc.minted, hsnc.stored, fun d hd principals clock => ?_,
    fun x hx hd htok principals clock => ?_, fun clock d hd => ?_, hs.queued.passed,
    fun d row hrow => hs.shaped.walks hrow, s.tree.work, fun ls s' hp hps d hd => ?_⟩
  · exact grantActive_eq_false hs.shaped hd hrev hbound principals clock
  · exact tokenActive_eq_false (hs.issued x hx) hd hrev htok principals clock
  · exact untouched_cleanupWithdrawals hs.shaped hs.queued clock hd
  · -- the passes meet the condition as well, so all of the above holds where they end
    have hme : ((trees parseUrl).restrict Meets).Path s ls s' := by
      refine System.Path.mono ?_ hp
      exact fun _ _ _ hst => ⟨hst.1, hst.2.1⟩
    obtain ⟨hs', hsnc'⟩ := since_of_path hme hs hsnc
    have hz : s'.tree.work = 0 := by
      have hle := work_of_path hp hs
      omega
    have hd' := revoked_of_work_eq_zero hs' hsnc' hz hd
    obtain ⟨_, hw', rfl, rfl⟩ := hsnc'.queued
    have hor := hsnc'.marked d hd hd'
    obtain ⟨row, hrow, hre⟩ := hd'
    refine ⟨row, hrow, hre, ?_, fun hnot hon => ?_⟩
    · exact hor.imp_left fun hold => hsnc'.grows.keeps hs₀.shaped hold hrow
    · exact (hor.resolve_left hnot).of_only hrow hw' hon

/-- Once the revocation of a grant of a task has committed, it is withdrawn in every later state,
and nothing outside its subtree has changed. -/
theorem withdrawal_cascades {named : Finset String} {tree : Tree}
    (hrun : ((trees parseUrl).restrict Meets).Path Run.init ls s₀)
    (hbound : (s₀.tree.bindings.lookup g).isSome)
    (hrevoke : s₀.tree.revokeCore g reason named now = .ok tree) :
    (∀ d, ¬Under s₀.tree.up 10 d g → Untouched s₀.tree tree d) ∧
      ∀ ms s, ((trees parseUrl).restrict Meets).Path { s₀ with tree } ms s →
        Withdrawn parseUrl s₀ s g now reason := by
  have hs₀ := sound_init.of_path hrun
  have hst : ((trees parseUrl).restrict Meets).step s₀ (.revoke g reason named now)
      { s₀ with tree } := by
    refine ⟨⟨trivial, ?_⟩, trivial⟩
    simp [Run.next, hrevoke]
  refine ⟨fun d hd => untouched_revokeCore hs₀.shaped hrevoke hd, fun ms s hlat => ?_⟩
  obtain ⟨hs, hsnc⟩ := since_of_path hlat (sound_step hst hs₀)
    (since_revoke hs₀ hrevoke hbound)
  exact hsnc.withdrawn hs₀ hs

end Runs

/-! ### The task with one delegate -/

/-- The owner revokes the root, and one pass comes after. -/
theorem withdrawal_cascades_root : ∃ s₀ tree s,
    ((trees exampleUrl).restrict Meets).Path Run.init approvedRun s₀ ∧
      s₀.tree.revokeCore "grant" .userRevoked ∅ 1 = .ok tree ∧
      ((trees exampleUrl).restrict Meets).Path { s₀ with tree } [.cleanup 2] s ∧
      Under s.tree.up 10 "child" "grant" ∧ s.tree.Revoked "child" ∧
      Withdrawn exampleUrl s₀ s "grant" 1 .userRevoked := by
  have hrun : ∃ s₀ tree s, ((trees exampleUrl).restrict Meets).Path Run.init approvedRun s₀ ∧
      (s₀.tree.bindings.lookup "grant").isSome ∧
      s₀.tree.revokeCore "grant" .userRevoked ∅ 1 = .ok tree ∧
      ((trees exampleUrl).restrict Meets).Path { s₀ with tree } [.cleanup 2] s ∧
      Under s.tree.up 10 "child" "grant" ∧ s.tree.Revoked "child" := by
    refine ⟨_, _, _, .cons ⟨⟨trivial, rfl⟩, ?_⟩ (.cons ⟨⟨trivial, rfl⟩, ?_⟩
      (.cons ⟨⟨?_, rfl⟩, trivial⟩ (.nil _))), rfl, rfl, .cons ⟨⟨trivial, rfl⟩, trivial⟩ (.nil _),
      ⟨["child", "grant"], rfl, by decide⟩, ⟨_, rfl, rfl⟩⟩
    · intro p hp
      cases hp
    · intro _ hp hbound
      cases hp
      cases hbound
    · intro _ hrow
      cases hrow
      rfl
  obtain ⟨s₀, tree, s, hpa, hbound, hrvk, hlat, hun, hrev⟩ := hrun
  exact ⟨s₀, tree, s, hpa, hrvk, hlat, hun, hrev, (withdrawal_cascades hpa hbound hrvk).2 _ _ hlat⟩

theorem foldl_cleanupWithdrawals_of_idle {tree : Tree} (h : tree.pending = []) (clocks : List ℤ) :
    clocks.foldl Tree.cleanupWithdrawals tree = tree := by
  induction clocks with
  | nil => rfl
  | cons clock clocks ih =>
    rw [List.foldl_cons, Tree.cleanupWithdrawals, h]
    exact ih

/-- Three ways past a withdrawal: a grant is inserted below a revoked one once the cursor is done;
a grant is revoked by a writer that queues nothing; a token of a delegate is older than the
task. -/
theorem withdrawal_escaped :
    (∃ s₀ tree s, (trees exampleUrl).Path Run.init approvedRun s₀ ∧
      s₀.tree.revokeCore "child" .userRevoked ∅ 1 = .ok tree ∧
      (trees exampleUrl).Path { s₀ with tree }
        [.cleanup 2, .create (delegatedGrant "grandchild" "child")] s ∧
      Under s.tree.up 10 "grandchild" "child" ∧
      ∀ clocks : List ℤ, ¬(clocks.foldl Tree.cleanupWithdrawals s.tree).Revoked "grandchild") ∧
    (∃ s, (trees exampleUrl).Path Run.init (approvedRun ++ [.stamp "grant" .codeReplayed 1]) s ∧
      s.tree.Revoked "grant" ∧ Under s.tree.up 10 "child" "grant" ∧
      ∀ clocks : List ℤ, ¬(clocks.foldl Tree.cleanupWithdrawals s.tree).Revoked "child") ∧
    ∃ s, (trees exampleUrl).Path Run.init
        [.create rootGrant, .create (delegatedGrant "child" "grant"),
          .sign noPrincipals (delegatedGrant "child" "grant") delegateToken 0,
          .approve true "task" readTask 0, .revoke "grant" .userRevoked ∅ 1] s ∧
      ("child", delegateToken) ∈ s.issued ∧ s.tree.Revoked "grant" ∧
      Under s.tree.up 10 "child" "grant" ∧ s.tree.tokenActive noPrincipals delegateToken 1 := by
  refine ⟨⟨_, _, _, .cons ⟨trivial, rfl⟩ (.cons ⟨trivial, rfl⟩ (.cons ⟨?_, rfl⟩ (.nil _))), rfl,
      .cons ⟨trivial, rfl⟩ (.cons ⟨trivial, rfl⟩ (.nil _)),
      ⟨["grandchild", "child", "grant"], rfl, by decide⟩, fun clocks => ?_⟩,
    ⟨_, .cons ⟨trivial, rfl⟩ (.cons ⟨trivial, rfl⟩ (.cons ⟨?_, rfl⟩
      (.cons ⟨trivial, rfl⟩ (.nil _)))), ⟨_, rfl, rfl⟩, ⟨["child", "grant"], rfl, by decide⟩,
      fun clocks => ?_⟩,
    ⟨_, .cons ⟨trivial, rfl⟩ (.cons ⟨trivial, rfl⟩ (.cons ⟨rfl, rfl⟩ (.cons ⟨?_, rfl⟩
      (.cons ⟨trivial, rfl⟩ (.nil _))))), List.mem_singleton_self _, ⟨_, rfl, rfl⟩,
      ⟨["child", "grant"], rfl, by decide⟩, by rfl⟩⟩
  · intro row hrow
    cases hrow
    rfl
  · rw [foldl_cleanupWithdrawals_of_idle (by rfl)]
    rintro ⟨row, hrow, hrev⟩
    cases hrow
    cases hrev
  · intro row hrow
    cases hrow
    rfl
  · rw [foldl_cleanupWithdrawals_of_idle (by rfl)]
    rintro ⟨row, hrow, hrev⟩
    cases hrow
    cases hrev
  · intro _ hrow
    cases hrow
    rfl

end AsteriusIdp.AgentTask
