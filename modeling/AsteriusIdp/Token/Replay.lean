import AsteriusIdp.Token.Endpoint

/-!
# Replayed codes

At most one presentation spends a code, because the statement that spends it looks for a code that
is unspent.  A presentation that finds the code spent revokes the grant.  The refresh token of the
one that spent it may be inserted after that, and then no statement of the replay reaches it; it
is useless all the same, since a refresh is signed for only while its grant stands.

* `Spends`: who spent which code; every step keeps it.
* `Replays`: a grant that was answered as replayed is revoked; every step keeps it.
* `replay_revokes`: what holds at the endpoint and forever after, in every interleaving.
-/

namespace AsteriusIdp.Token

open Fallible Issuance Store Transition Entries Tables

variable {parseUrl : UrlParser} {input : Input} {tables : Tables} {phase : Phase}

/-! ### What a statement does -/

variable {id digest grant : String} {now t : ℤ} {row : AuthorizationCode} {r : ℕ}
  {reason : RevocationReason}

/-- A claim writes nothing but the stamp on the grant. -/
theorem claim_ok {claimed : Tables} (h : input.claim tables id now = .ok claimed) :
    claimed = tables ∨ claimed = tables.claimGrant id now := by
  simp only [Input.claim, bind_ok, pure_ok] at h
  obtain ⟨_, -, rfl⟩ := h
  split_ifs
  · exact .inl rfl
  · exact .inr rfl

theorem signing_eq (input : Input) (tables : Tables) (grant : Grant) :
    input.signing tables grant = tables ∨
    input.signing tables grant = tables.claimGrant grant.id input.clock := by
  unfold Input.signing
  split_ifs
  · exact .inr rfl
  · exact .inl rfl

/-- The statement leaves the codes alone, and the grants but for a claim. -/
structure Quiet (tables : Tables) (phase : Phase) (result : Tables × Phase) : Prop where
  codes : result.1.codes = tables.codes
  spent : result.2.spent = phase.spent
  grants : result.1.grants = tables.grants ∨
    ∃ id now, result.1.grants = (tables.claimGrant id now).grants

theorem Quiet.unwritten {phase' : Phase} (h : phase'.spent = phase.spent) :
    Quiet tables phase (tables, phase') :=
  ⟨rfl, h, .inl rfl⟩

theorem Quiet.claimed {claimed : Tables} {phase' : Phase}
    (hcld : claimed = tables ∨ claimed = tables.claimGrant id now)
    (h : phase'.spent = phase.spent) : Quiet tables phase (claimed, phase') := by
  rcases hcld with rfl | rfl
  · exact .unwritten h
  · exact ⟨rfl, h, .inr ⟨id, now, rfl⟩⟩

variable {result : Tables × Phase}

section

variable (h : Moves parseUrl input tables phase result)
include h

/-- What a statement writes to grants and codes: it spends a code, revokes the grant of a replayed
one, or is quiet. -/
theorem Moves.writes :
    (∃ req row, phase = .presented req ∧
        tables.spendable req.code req.minting.now = some row ∧
        result = (tables.spendCode req.code req.minting.now, .redeemed req row.grant)) ∨
      (∃ now grant, phase = .replay now grant ∧
        result = (tables.stampRevoked grant .codeReplayed now, .stamped now grant)) ∨
      Quiet tables phase result := by
  cases h with
  | @spends req row hrow => exact .inl ⟨req, row, rfl, hrow, rfl⟩
  | stamps now grant => exact .inr (.inl ⟨now, grant, rfl, rfl⟩)
  | claims targeting hcl => exact .inr (.inr (.claimed (claim_ok hcl) rfl))
  | reclaims record effective hcl => exact .inr (.inr (.claimed (claim_ok hcl) rfl))
  | signs req grant | @mints _ _ grant =>
    exact .inr (.inr (.claimed (signing_eq input tables grant) rfl))
  | issues =>
    refine .inr (.inr ?_)
    split_ifs
    · exact ⟨codes_issueRefreshToken .., rfl, .inl (grants_issueRefreshToken ..)⟩
    · exact .unwritten rfl
  | supersedes =>
    exact .inr (.inr ⟨codes_supersede .., rfl, .inl (grants_supersede ..)⟩)
  | revokes | accepts => exact .inr (.inr ⟨rfl, rfl, .inl rfl⟩)
  | stays | refuses | misses | detects | finds | authorizes | returns =>
    exact .inr (.inr (.unwritten rfl))

/-- A statement only moves the rows of grants forward. -/
theorem Moves.evolves : Evolves tables.grants result.1.grants := by
  obtain ⟨_, _, -, -, rfl⟩ | ⟨now, grant, -, rfl⟩ | ⟨-, -, hgrs | ⟨id, now, hgrs⟩⟩ :=
    h.writes
  · exact .refl _
  · exact evolves_stampRevoked tables grant .codeReplayed now
  · exact hgrs ▸ .refl _
  · exact hgrs ▸ evolves_claimGrant tables id now

/-- A statement deletes no grant. -/
theorem Moves.lookup_isSome
    (hid : (tables.grants.lookup id).isSome) : (result.1.grants.lookup id).isSome := by
  obtain ⟨req, row, -, -, rfl⟩ | ⟨now, grant, -, rfl⟩ | ⟨-, -, hgrs | ⟨id, now, hgrs⟩⟩ :=
    h.writes
  · exact hid
  · simpa [stampRevoked] using hid
  · rwa [hgrs]
  · rw [hgrs]
    simpa [claimGrant] using hid

end

/-! ### Grants along a run -/

variable {s s' : State} {l : Label}

theorem Outside.allowed {op : Op} (h : Outside s now op) : op.Allowed s.ids now := by
  cases op with
  | deleteGrants | issueRefreshToken | supersede => trivial
  | _ => exact h

theorem Outside.deletedIds {op : Op} (h : Outside s now op) : op.deletedIds = ∅ := by
  cases op with
  | deleteGrants => exact h.elim
  | _ => rfl

section

variable (hstep : (endpoint parseUrl).step s l s')
include hstep

/-- Only a statement of a request and what happens outside the endpoint write grants. -/
theorem step_grants :
    (∃ r input result, l = .advance r input ∧
        Moves parseUrl input s.tables (s.requests r) result ∧ s'.tables = result.1 ∧
        s'.ids = s.ids) ∨
      (∃ now op, l = .other now op ∧ Outside s now op ∧ s'.tables = op.apply s.tables now ∧
        s'.ids = s.ids ∪ op.newIds) ∨ s'.tables.grants = s.tables.grants ∧ s'.ids = s.ids := by
  cases l with
  | present | refresh =>
    obtain ⟨-, rfl⟩ := hstep
    exact .inr (.inr ⟨rfl, rfl⟩)
  | refuse =>
    obtain ⟨-, -, rfl⟩ := hstep
    exact .inr (.inr ⟨rfl, rfl⟩)
  | issueCode =>
    obtain ⟨-, -, -, rfl⟩ := hstep
    exact .inr (.inr ⟨rfl, rfl⟩)
  | advance r input =>
    obtain ⟨-, rfl⟩ := hstep
    exact .inl ⟨r, input, _, rfl, moves_next .., rfl, rfl⟩
  | other now op =>
    obtain ⟨hou, rfl⟩ := hstep
    exact .inr (.inl ⟨now, op, rfl, hou, rfl, rfl⟩)

theorem known_step (h : Known s.tables s.ids) : Known s'.tables s'.ids := by
  obtain ⟨_, _, _, -, hmvs, htab, hids⟩ | ⟨now, op, -, -, htab, hids⟩ |
    ⟨hgrs, hids⟩ := step_grants hstep
  · intro id hid
    rw [htab] at hid
    obtain ⟨row', hrow'⟩ := Option.isSome_iff_exists.1 hid
    obtain ⟨_, hrow, -⟩ := hmvs.evolves id row' hrow'
    exact hids ▸ h id (hrow ▸ rfl)
  · rw [htab, hids]
    exact h.apply op now
  · intro id hid
    rw [hgrs] at hid
    exact hids ▸ h id hid

/-- Through a step the row of a grant stays, and only moves forward. -/
theorem lookup_step (hkn : Known s.tables s.ids)
    {row : Grant} (hrow : s.tables.grants.lookup id = some row) :
    ∃ row', s'.tables.grants.lookup id = some row' ∧ Later row row' := by
  have hso : (s.tables.grants.lookup id).isSome := hrow ▸ rfl
  obtain ⟨_, _, _, -, hmvs, htab, -⟩ | ⟨_, op, -, hou, htab, -⟩ |
    ⟨hgrs, -⟩ := step_grants hstep
  · rw [htab]
    obtain ⟨row', hrow'⟩ := Option.isSome_iff_exists.1 (hmvs.lookup_isSome hso)
    obtain ⟨row₀, hrow₀, hlat⟩ := hmvs.evolves id row' hrow'
    cases hrow.symm.trans hrow₀
    exact ⟨row', hrow', hlat⟩
  · rw [htab]
    have hkp : id ∉ op.deletedIds := by simp [hou.deletedIds]
    obtain ⟨row', hrow'⟩ := Option.isSome_iff_exists.1 (Op.lookup_apply_isSome hso hkp)
    obtain ⟨_, hrow₀, hlat⟩ := Op.lookup_apply hrow'
      (not_mem_newIds hou.allowed (hkn id hso))
    cases hrow.symm.trans hrow₀
    exact ⟨row', hrow', hlat⟩
  · exact ⟨row, hgrs ▸ hrow, .refl row⟩

end

/-! ### Spending a code -/

/-- Who spent which code: the code is then spent, and only one request spent it. -/
structure Spends (s : State) : Prop where
  known : ∀ digest, (s.tables.codes.lookup digest).isSome → digest ∈ s.codes
  consumed : ∀ r code, (s.requests r).spent = some code →
    code ∈ s.codes ∧ ∀ row, s.tables.codes.lookup code = some row → row.consumedAt.isSome
  unique : ∀ r r' code, (s.requests r).spent = some code → (s.requests r').spent = some code →
    r = r'

theorem spends_init : Spends State.init := by
  refine ⟨fun digest h => ?_, fun r code h => ?_, fun r r' code h => ?_⟩ <;> cases h

/-- Only the request `r` moved, and it had spent the same code before. -/
theorem spent_answer {r' : ℕ} {phase : Phase} (h : phase.spent = (s.requests r).spent) :
    ((s.answer r phase).requests r').spent = (s.requests r').spent := by
  by_cases hr : r' = r
  · subst hr
    simpa [State.answer] using h
  · simp [State.answer, hr]

/-- Codes are only ever deleted, and every request had spent the same code before. -/
theorem Spends.quiet (h : Spends s) (hcod : s'.codes = s.codes)
    (hlk : ∀ digest row, s'.tables.codes.lookup digest = some row →
      s.tables.codes.lookup digest = some row)
    (hsp : ∀ r, (s'.requests r).spent = (s.requests r).spent) : Spends s' := by
  refine ⟨fun digest hso => ?_, fun r code hco => ?_, fun r r' code hr hr' => ?_⟩
  · obtain ⟨row, hrow⟩ := Option.isSome_iff_exists.1 hso
    exact hcod ▸ h.known digest (hlk digest row hrow ▸ rfl)
  · obtain ⟨hmem, hcn⟩ := h.consumed r code (hsp r ▸ hco)
    exact ⟨hcod ▸ hmem, fun row hrow => hcn row (hlk code row hrow)⟩
  · exact h.unique r r' code (hsp r ▸ hr) (hsp r' ▸ hr')

theorem spendable_eq_some (h : tables.spendable digest now = some row) :
    tables.codes.lookup digest = some row ∧ row.consumedAt = none ∧ now < row.expiresAt := by
  simpa [spendable] using h

/-- Once it is spent, a code stays spent. -/
theorem lookup_spendCode {code : String}
    (h : (tables.spendCode code now).codes.lookup digest = some row) :
    ∃ row₀, tables.codes.lookup digest = some row₀ ∧ row.grant = row₀.grant ∧
    (row₀.consumedAt.isSome → row.consumedAt.isSome) := by
  rw [spendCode, lookup_updateWhere, Option.map_eq_some_iff] at h
  obtain ⟨row₀, hrow₀, rfl⟩ := h
  refine ⟨row₀, hrow₀, ?_⟩
  split_ifs
  · exact ⟨rfl, fun _ => rfl⟩
  · exact ⟨rfl, id⟩

theorem consumed_spendCode {code : String} {row' : AuthorizationCode}
    (hspd : tables.spendable code now = some row)
    (h : (tables.spendCode code now).codes.lookup code = some row') : row'.consumedAt.isSome := by
  obtain ⟨hrow, hun, hlv⟩ := spendable_eq_some hspd
  rw [spendCode, lookup_updateWhere, hrow, Option.map_some, if_pos] at h
  · cases h
    rfl
  · simp [hun, hlv]

/-- A code that can be spent was spent by no request, and now by one. -/
theorem Spends.spend (h : Spends s) {req : CodeRequest}
    (hspd : s.tables.spendable req.code req.minting.now = some row) :
    Spends ((s.write (s.tables.spendCode req.code req.minting.now)).answer r
      (.redeemed req row.grant)) := by
  obtain ⟨hrow, hun, -⟩ := spendable_eq_some hspd
  have hno : ∀ r', (s.requests r').spent ≠ some req.code := by
    intro r' hr'
    have hcn := (h.consumed r' req.code hr').2 row hrow
    rw [hun] at hcn
    cases hcn
  -- The other requests are where they were, and none of them spent this code.
  have hoth : ∀ r' code, (((s.write (s.tables.spendCode req.code
      req.minting.now)).answer r (.redeemed req row.grant)).requests r').spent = some code →
      r' = r ∧ code = req.code ∨ (s.requests r').spent = some code := by
    intro r' code hsp
    by_cases hr : r' = r
    · subst hr
      simp only [State.answer, Function.update_self, Phase.spent, Option.some.injEq] at hsp
      exact .inl ⟨rfl, hsp.symm⟩
    · simp only [State.answer, Function.update_of_ne hr] at hsp
      exact .inr hsp
  refine ⟨fun digest hso => ?_, fun r' code hco => ?_, fun r₁ r₂ code h₁ h₂ => ?_⟩
  · obtain ⟨row', hrow'⟩ := Option.isSome_iff_exists.1 hso
    obtain ⟨row₀, hrow₀, -⟩ := lookup_spendCode hrow'
    exact h.known digest (hrow₀ ▸ rfl)
  · rcases hoth r' code hco with ⟨-, rfl⟩ | hsp
    · exact ⟨h.known _ (hrow ▸ rfl), fun row' hrow' => consumed_spendCode hspd hrow'⟩
    · obtain ⟨hmem, hcn⟩ := h.consumed r' code hsp
      refine ⟨hmem, fun row' hrow' => ?_⟩
      obtain ⟨row₀, hrow₀, -, hkp⟩ := lookup_spendCode hrow'
      exact hkp (hcn row₀ hrow₀)
  · rcases hoth r₁ code h₁ with ⟨rfl, rfl⟩ | hsp₁
    · rcases hoth r₂ _ h₂ with ⟨rfl, -⟩ | hsp₂
      · rfl
      · exact (hno r₂ hsp₂).elim
    · rcases hoth r₂ _ h₂ with ⟨-, rfl⟩ | hsp₂
      · exact (hno r₁ hsp₁).elim
      · exact h.unique r₁ r₂ code hsp₁ hsp₂

theorem Spends.issueCode (h : Spends s) {code : AuthorizationCode} (hnew : digest ∉ s.codes) :
    Spends { s with
      tables := { s.tables with codes := s.tables.codes.insert digest code }
      codes := insert digest s.codes } := by
  refine ⟨fun d hso => ?_, fun r c hco => ?_, h.unique⟩
  · by_cases hd : d = digest
    · exact hd ▸ Finset.mem_insert_self _ _
    · rw [lookup_insert_of_ne _ _ hd] at hso
      exact Finset.mem_insert_of_mem (h.known d hso)
  · obtain ⟨hmem, hcn⟩ := h.consumed r c hco
    refine ⟨Finset.mem_insert_of_mem hmem, fun row hrow => ?_⟩
    have hd : c ≠ digest := fun hd => hnew (hd ▸ hmem)
    rw [lookup_insert_of_ne _ _ hd] at hrow
    exact hcn row hrow

theorem Spends.step (hstep : (endpoint parseUrl).step s l s') (h : Spends s) : Spends s' := by
  cases l with
  | present r req | refresh r req =>
    obtain ⟨hid, rfl⟩ := hstep
    refine h.quiet rfl (fun _ _ => id) fun r' => spent_answer ?_
    rw [hid]
    rfl
  | refuse =>
    obtain ⟨-, -, rfl⟩ := hstep
    exact h.quiet rfl (fun _ _ => id) fun r' => spent_answer rfl
  | issueCode =>
    obtain ⟨hnew, -, -, rfl⟩ := hstep
    exact h.issueCode hnew
  | other =>
    obtain ⟨-, rfl⟩ := hstep
    exact h.quiet rfl (fun _ _ => Op.lookup_codes_apply) fun r' => rfl
  | advance r input =>
    obtain ⟨-, rfl⟩ := hstep
    obtain ⟨_, row, -, hspd, hnx⟩ | ⟨_, _, hph, hnx⟩ | hqt :=
      (moves_next parseUrl input s.tables (s.requests r)).writes
    · rw [hnx]
      exact h.spend hspd
    · rw [hnx]
      refine h.quiet rfl (fun _ _ => id) fun r' => spent_answer ?_
      rw [State.write, hph]
      rfl
    · refine h.quiet rfl (fun digest row hrow => ?_) fun r' => spent_answer hqt.spent
      exact hqt.codes ▸ hrow

/-! ### Answering a replay -/

/-- The grant a request found to be replayed and has not revoked yet. -/
def Phase.toRevoke : Phase → Option String
  | .replay _ grant => some grant
  | _ => none

/-- The grant a request revoked because of a replay. -/
def Phase.revoked : Phase → Option String
  | .stamped _ grant | .replayed grant => some grant
  | _ => none

/-- The grant is revoked, with a reason. -/
def Revoked (tables : Tables) (grant : String) : Prop :=
  ∃ row, tables.grants.lookup grant = some row ∧ row.revokedAt.isSome ∧
    row.revocationReason.isSome

theorem revoked_step (hstep : (endpoint parseUrl).step s l s') (hkn : Known s.tables s.ids)
    (h : Revoked s.tables grant) : Revoked s'.tables grant := by
  obtain ⟨_, hrow, hrev, hrsn⟩ := h
  obtain ⟨row', hrow', hlat⟩ := lookup_step hstep hkn hrow
  obtain ⟨t, ht⟩ := Option.isSome_iff_exists.1 hrev
  obtain ⟨reason, hr⟩ := Option.isSome_iff_exists.1 hrsn
  exact ⟨row', hrow', hlat.revokedAt t ht ▸ rfl, hlat.reason reason hr ▸ rfl⟩

theorem revoked_stampRevoked (h : (tables.grants.lookup grant).isSome) (reason : RevocationReason)
    (now : ℤ) : Revoked (tables.stampRevoked grant reason now) grant := by
  obtain ⟨row, hrow⟩ := Option.isSome_iff_exists.1 h
  have hstp : (tables.stampRevoked grant reason now).grants.lookup grant = some { row with
      revokedAt := coalesce row.revokedAt now
      revocationReason := coalesce row.revocationReason reason } := by
    rw [stampRevoked, lookup_updateWhere, hrow]
    simp
  exact ⟨_, hstp, coalesce_isSome _ _, coalesce_isSome _ _⟩

/-- The grant of every code is there, and the grant of a replayed one is revoked. -/
structure Replays (s : State) : Prop where
  known : Known s.tables s.ids
  granted : ∀ digest row, s.tables.codes.lookup digest = some row →
    (s.tables.grants.lookup row.grant).isSome
  toRevoke : ∀ r grant, (s.requests r).toRevoke = some grant →
    (s.tables.grants.lookup grant).isSome
  revoked : ∀ r grant, (s.requests r).revoked = some grant → Revoked s.tables grant

theorem replays_init : Replays State.init := by
  refine ⟨fun id h => ?_, fun digest row h => ?_, fun r grant h => ?_, fun r grant h => ?_⟩ <;>
    cases h

theorem replayedGrant_eq_some (h : tables.replayedGrant digest = some grant) :
    ∃ row, tables.codes.lookup digest = some row ∧ row.grant = grant := by
  simp only [replayedGrant, Option.map_eq_some_iff, Option.filter_eq_some_iff] at h
  obtain ⟨row, ⟨hrow, -⟩, hgr⟩ := h
  exact ⟨row, hrow, hgr⟩

/-- A grant is found to be replayed by looking at the code. -/
theorem Moves.toRevoke (h : Moves parseUrl input tables phase result)
    (hgr : result.2.toRevoke = some grant) :
    phase.toRevoke = some grant ∨
    ∃ digest row, tables.codes.lookup digest = some row ∧ row.grant = grant := by
  cases h with
  | @detects req replayed hre =>
    cases hgr
    exact .inr ⟨req.code, replayedGrant_eq_some hre⟩
  | stays => exact .inl hgr
  | _ => cases hgr

/-- A grant is revoked because of a replay by the statement that stamps it. -/
theorem Moves.revoked (h : Moves parseUrl input tables phase result)
    (hgr : result.2.revoked = some grant) :
    phase.revoked = some grant ∨ ∃ now, phase = .replay now grant ∧
    result.1 = tables.stampRevoked grant .codeReplayed now := by
  cases h with
  | stamps now =>
    cases hgr
    exact .inr ⟨now, rfl, rfl⟩
  | revokes | stays => exact .inl hgr
  | _ => cases hgr

/-- A code is there before a step, or its grant is. -/
theorem codes_step (hstep : (endpoint parseUrl).step s l s')
    (hrow : s'.tables.codes.lookup digest = some row) :
    (∃ row₀, s.tables.codes.lookup digest = some row₀ ∧ row.grant = row₀.grant) ∨
      s.tables.grants.contains row.grant := by
  cases l with
  | present | refresh =>
    obtain ⟨-, rfl⟩ := hstep
    exact .inl ⟨row, hrow, rfl⟩
  | refuse =>
    obtain ⟨-, -, rfl⟩ := hstep
    exact .inl ⟨row, hrow, rfl⟩
  | issueCode digest' =>
    obtain ⟨-, -, hgr, rfl⟩ := hstep
    by_cases hd : digest = digest'
    · subst hd
      rw [lookup_insert_self] at hrow
      cases hrow
      exact .inr hgr
    · rw [lookup_insert_of_ne _ _ hd] at hrow
      exact .inl ⟨row, hrow, rfl⟩
  | other =>
    obtain ⟨-, rfl⟩ := hstep
    exact .inl ⟨row, Op.lookup_codes_apply hrow, rfl⟩
  | advance r input =>
    obtain ⟨-, rfl⟩ := hstep
    obtain ⟨_, _, -, -, hnx⟩ | ⟨_, _, -, hnx⟩ | hqt :=
      (moves_next parseUrl input s.tables (s.requests r)).writes
    · rw [hnx] at hrow
      obtain ⟨row₀, hrow₀, hgr, -⟩ := lookup_spendCode hrow
      exact .inl ⟨row₀, hrow₀, hgr⟩
    · rw [hnx] at hrow
      exact .inl ⟨row, hrow, rfl⟩
    · exact .inl ⟨row, hqt.codes ▸ hrow, rfl⟩

theorem Replays.step (hstep : (endpoint parseUrl).step s l s') (h : Replays s) : Replays s' := by
  have hkp : ∀ id, (s.tables.grants.lookup id).isSome → (s'.tables.grants.lookup id).isSome := by
    intro _ hid
    obtain ⟨row, hrow⟩ := Option.isSome_iff_exists.1 hid
    obtain ⟨_, hrow', -⟩ := lookup_step hstep h.known hrow
    exact hrow' ▸ rfl
  refine ⟨known_step hstep h.known, fun digest row hrow => ?_, fun r grant hgr => ?_,
    fun r grant hgr => ?_⟩
  · rcases codes_step hstep hrow with ⟨row₀, hrow₀, hsm⟩ | hcon
    · exact hsm ▸ hkp _ (h.granted digest row₀ hrow₀)
    · exact hkp _ hcon
  · obtain hbef | ⟨input, result, -, hmvs, hgr, -⟩ :=
      requests_step (·.toRevoke = some grant) (by simp [Phase.toRevoke]) hstep hgr
    · exact hkp _ (h.toRevoke r grant hbef)
    · rcases hmvs.toRevoke hgr with hbef | ⟨digest, row, hrow, rfl⟩
      · exact hkp _ (h.toRevoke r grant hbef)
      · exact hkp _ (h.granted digest row hrow)
  · obtain hbef | ⟨_, _, -, hmvs, hgr, htab, -⟩ :=
      requests_step (·.revoked = some grant) (by simp [Phase.revoked]) hstep hgr
    · exact revoked_step hstep h.known (h.revoked r grant hbef)
    · rcases hmvs.revoked hgr with hbef | ⟨_, hph, hstp⟩
      · exact revoked_step hstep h.known (h.revoked r grant hbef)
      · rw [htab, hstp]
        exact revoked_stampRevoked (h.toRevoke r grant (by rw [hph]; rfl)) _ _

/-! ### Refreshes of a revoked grant -/

/-- The grant that a refresh obtained a token of. -/
def Phase.obtained : Phase → Option String
  | .minted use | .refreshed use _ => some use.record.grant
  | _ => none

/-- The grant that a refresh read for its record, and may still get a token of. -/
def Phase.reads : Phase → Option (String × String)
  | .authorized _ record grant _ | .reclaimed _ record grant _ => some (record.grant, grant.id)
  | _ => none

/-- A refresh works with the grant of its record. -/
structure Reads (s : State) : Prop where
  keyed : Keyed s.tables
  reads : ∀ r record grant, (s.requests r).reads = some (record, grant) → grant = record

theorem reads_init : Reads State.init := by
  refine ⟨fun id row h => ?_, fun r record grant h => ?_⟩ <;> cases h

theorem authorize_ok {req : RefreshRequest} {record : RefreshToken} {grant : Grant}
    {effective : Finset String} (h : authorize tables req record = .ok (grant, effective)) :
    tables.grants.lookup record.grant = some grant ∧
    requestedScopes req.scope record.scopes = .ok effective := by
  simp only [authorize, bind_ok, refuseIf_ok, okOr_ok, orFail_ok, pure_ok, Prod.mk.injEq] at h
  obtain ⟨_, -, _, -, _, hgr, _, -, _, heff, rfl, rfl⟩ := h
  exact ⟨hgr, heff⟩

theorem Moves.reads (h : Moves parseUrl input tables phase result) {record : String}
    (hrd : result.2.reads = some (record, grant)) :
    phase.reads = some (record, grant) ∨
    ∃ row, tables.grants.lookup record = some row ∧ row.id = grant := by
  cases h with
  | @authorizes req token row effective hau =>
    obtain ⟨rfl, rfl⟩ := hrd
    exact .inr ⟨row, (authorize_ok hau).1, rfl⟩
  | reclaims | stays => exact .inl hrd
  | _ => cases hrd

theorem Reads.step (hstep : (endpoint parseUrl).step s l s') (h : Reads s) : Reads s' := by
  refine ⟨?_, fun r record grant hrd => ?_⟩
  · obtain ⟨r, input, result, -, hmvs, htab, -⟩ | ⟨now, op, -, -, htab, -⟩ | ⟨hgrs, -⟩ :=
      step_grants hstep
    · exact htab ▸ h.keyed.evolves hmvs.evolves
    · exact htab ▸ h.keyed.apply op now
    · exact h.keyed.evolves (hgrs ▸ .refl _)
  · obtain hbef | ⟨_, _, -, hmvs, hrd, -⟩ :=
      requests_step (·.reads = some (record, grant)) (by simp [Phase.reads]) hstep hrd
    · exact h.reads r record grant hbef
    · rcases hmvs.reads hrd with hbef | ⟨row, hrow, rfl⟩
      · exact h.reads r record grant hbef
      · exact h.keyed record row hrow

/-- A refresh obtains a token by having it signed for its grant. -/
theorem Moves.obtained (h : Moves parseUrl input tables phase result)
    (hobt : result.2.obtained = some grant) :
    phase.obtained = some grant ∨ ∃ id, phase.reads = some (grant, id) ∧
    ∀ row, tables.grants.lookup id = some row → row.revokedAt = none := by
  cases h with
  | @mints req record row effective token after hsg =>
    cases hobt
    exact .inr ⟨row.id, rfl, fun row' hrow' => Minting.signRefresh_live hsg hrow'⟩
  | supersedes | returns | stays => exact .inl hobt
  | _ => cases hobt

/-- While a grant is revoked, no refresh obtains a token of it. -/
theorem obtained_step (hstep : (endpoint parseUrl).step s l s') (hrd : Reads s)
    (hrev : Revoked s.tables grant) (hobt : (s'.requests r).obtained = some grant) :
    (s.requests r).obtained = some grant := by
  obtain hbef | ⟨_, _, -, hmvs, hobt, -⟩ :=
    requests_step (·.obtained = some grant) (by simp [Phase.obtained]) hstep hobt
  · exact hbef
  · rcases hmvs.obtained hobt with hbef | ⟨id, hph, hlv⟩
    · exact hbef
    · obtain rfl := hrd.reads r grant id hph
      obtain ⟨row, hrow, hstp, -⟩ := hrev
      rw [hlv row hrow] at hstp
      cases hstp

/-! ### Every interleaving -/

/-- The grant was revoked at some instant for some reason. -/
def Stamped (tables : Tables) (grant : String) (t : ℤ) (reason : RevocationReason) : Prop :=
  ∃ row, tables.grants.lookup grant = some row ∧ row.revokedAt = some t ∧
    row.revocationReason = some reason

theorem Stamped.step (hstep : (endpoint parseUrl).step s l s') (hkn : Known s.tables s.ids)
    (h : Stamped s.tables grant t reason) : Stamped s'.tables grant t reason := by
  obtain ⟨_, hrow, ht, hrsn⟩ := h
  obtain ⟨row', hrow', hlat⟩ := lookup_step hstep hkn hrow
  exact ⟨row', hrow', hlat.revokedAt t ht, hlat.reason reason hrsn⟩

theorem Stamped.unique {t' : ℤ} {reason' : RevocationReason} (h : Stamped tables grant t reason)
    (h' : Stamped tables grant t' reason') : t = t' ∧ reason = reason' := by
  obtain ⟨_, hrow, ht, hrsn⟩ := h
  obtain ⟨_, hrow', ht', hrsn'⟩ := h'
  cases hrow.symm.trans hrow'
  exact ⟨Option.some.inj (ht.symm.trans ht'), Option.some.inj (hrsn.symm.trans hrsn')⟩

theorem Stamped.revoked (h : Stamped tables grant t reason) : Revoked tables grant := by
  obtain ⟨row, hrow, ht, hrsn⟩ := h
  exact ⟨row, hrow, ht ▸ rfl, hrsn ▸ rfl⟩

/-- The invariants of the endpoint. -/
structure Sound (s : State) : Prop where
  spends : Spends s
  replays : Replays s
  reads : Reads s

theorem sound_of_path {ls : List Label} (h : (endpoint parseUrl).Path State.init ls s) :
    Sound s := by
  refine h.invariant (I := Sound) ?_ ⟨spends_init, replays_init, reads_init⟩
  intro _ _ _ hstep hsnd
  exact ⟨hsnd.spends.step hstep, hsnd.replays.step hstep, hsnd.reads.step hstep⟩

/-- From a state on, the stamp of a revoked grant stays, and no refresh obtains a token of it that
has none by then. -/
theorem stamped_of_path {ls : List Label} (h : (endpoint parseUrl).Path s ls s') (hsnd : Sound s)
    (hst : Stamped s.tables grant t reason) :
    Stamped s'.tables grant t reason ∧
    ∀ r, (s'.requests r).obtained = some grant → (s.requests r).obtained = some grant := by
  have hinv := h.invariant (I := fun x => Sound x ∧ Stamped x.tables grant t reason ∧
    ∀ r, (x.requests r).obtained = some grant → (s.requests r).obtained = some grant) ?_
    ⟨hsnd, hst, fun _ => id⟩
  · exact hinv.2
  · rintro _ _ _ hstep ⟨hx, hstp, hobt⟩
    refine ⟨⟨hx.spends.step hstep, hx.replays.step hstep, hx.reads.step hstep⟩,
      hstp.step hstep hx.replays.known, fun r hr => hobt r ?_⟩
    exact obtained_step hstep hx.reads hstp.revoked hr

/-- The grant is revoked with the first instant and reason that it was ever revoked with; both stay,
and no refresh that has no token of it by now ever obtains one. -/
def RevokedForGood (parseUrl : UrlParser) (s : State) (grant : String) : Prop :=
  ∃ t reason, Stamped s.tables grant t reason ∧
    (∀ ls₀ s₀ ls₁ t₀ reason₀, (endpoint parseUrl).Path State.init ls₀ s₀ →
      (endpoint parseUrl).Path s₀ ls₁ s → Stamped s₀.tables grant t₀ reason₀ →
        t = t₀ ∧ reason = reason₀) ∧
    ∀ ls' s', (endpoint parseUrl).Path s ls' s' → Stamped s'.tables grant t reason ∧
    ∀ r, (s'.requests r).obtained = some grant → (s.requests r).obtained = some grant

/-- In every interleaving at most one request spends a code; and once a request was answered as a
replay, its grant is revoked for good, whatever refresh tokens it has or gets. -/
theorem replay_revokes {ls : List Label} (h : (endpoint parseUrl).Path State.init ls s) :
    (∀ code r r', (s.requests r).spent = some code → (s.requests r').spent = some code → r = r') ∧
      ∀ r grant, s.requests r = .replayed grant → RevokedForGood parseUrl s grant := by
  have hsnd := sound_of_path h
  refine ⟨fun code r r' => hsnd.spends.unique r r' code, fun r grant hr => ?_⟩
  obtain ⟨row, hrow, ht, hrsn⟩ := hsnd.replays.revoked r grant (by rw [hr]; rfl)
  obtain ⟨t, ht⟩ := Option.isSome_iff_exists.1 ht
  obtain ⟨reason, hrsn⟩ := Option.isSome_iff_exists.1 hrsn
  have hstp : Stamped s.tables grant t reason := ⟨row, hrow, ht, hrsn⟩
  refine ⟨t, reason, hstp, fun ls₀ s₀ ls₁ t₀ reason₀ h₀ h₁ hstp₀ => ?_,
    fun ls' s' h' => stamped_of_path h' hsnd hstp⟩
  exact hstp.unique (stamped_of_path h₁ (sound_of_path h₀) hstp₀).1

/-! ### A refresh token inserted after the replay -/

/-- A grant that earns a refresh token. -/
def offlineGrant : Grant :=
  { Grant.new "grant" "app" "rev" 0 with
    scopes := {"read", "offline_access"}, resources := {"https://api.example/"} }

/-- A code for a minute. -/
def offlineCode : AuthorizationCode :=
  { grant := "grant", client := "app", expiresAt := seconds 60, consumedAt := none }

/-- A request that presents the code. -/
def presentation : CodeRequest :=
  { code := "code"
    policy := { absoluteLifetime := seconds 3600, idleLifetime := none, bindToDpopKey := false,
                rotation := .none }
    binding := .dpop "key"
    minting := .atApi none }

/-- A statement at a quiet moment; the next refresh token gets the digest `token`. -/
def quietInput : Input := { store := exampleStore, clock := seconds 1, freshDigest := "token" }

/-- Two requests present the code.  The first spends it and has its access token signed; the second
finds the code spent and revokes the grant; then the first inserts its refresh token. -/
def lateInsert : List Label :=
  [.other 0 (.createGrant offlineGrant), .issueCode "code" offlineCode, .present 0 presentation,
    .present 1 presentation, .advance 0 quietInput, .advance 0 quietInput, .advance 0 quietInput,
    .advance 0 quietInput, .advance 1 quietInput, .advance 1 quietInput, .advance 1 quietInput,
    .advance 1 quietInput, .advance 0 quietInput]

theorem replay_revokes_lateInsert :
    ∃ s, (endpoint exampleUrl).Path State.init lateInsert s ∧ s.requests 1 = .replayed "grant" ∧
    ((s.tables.refreshTokens.lookup "token").map (·.revokedAt)) = some none ∧
    RevokedForGood exampleUrl s "grant" := by
  have hp : ∃ s, (endpoint exampleUrl).Path State.init lateInsert s ∧
      s.requests 1 = .replayed "grant" ∧
      ((s.tables.refreshTokens.lookup "token").map (·.revokedAt)) = some none := by
    refine ⟨_, .cons ⟨Finset.notMem_empty "grant", rfl⟩
      (.cons ⟨Finset.notMem_empty "code", rfl, rfl, rfl⟩ (by
        iterate 11 (constructor; exact ⟨rfl, rfl⟩)
        exact .nil _)), by rfl, by rfl⟩
  obtain ⟨s, hs, hre, htok⟩ := hp
  exact ⟨s, hs, hre, htok, (replay_revokes hs).2 1 "grant" hre⟩

end AsteriusIdp.Token
