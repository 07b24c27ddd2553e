import AsteriusIdp.Store.History
import AsteriusIdp.Store.Status

/-!
# Withdrawing access tokens

An access token is stateless, so nothing lists the tokens of a grant.  They are withdrawn by the
status of the grant, which a revocation and a replayed code change, and by a cut-off, which the
revocation of a refresh token writes while the grant stands.  A cut-off is purged once every token
it could refuse has expired.

* `Ended`: the tokens of a grant up to some instant are over; every operation keeps it.
* `withdrawn_for_good`: whatever ends a grant, a token minted from it before, with its `grant_id`,
  is inactive and refused from then on.
* `revoked_grant_still_active`: without the `grant_id` claim it is not.
-/

namespace AsteriusIdp.Store

open Transition Entries Tables

/-! ### Cut-offs -/

/-- The operation revokes the grant, revokes a refresh token of it, or answers the replay of a code
drawn on it. -/
def Op.Withdraws (tables : Tables) (grant : String) : Op → Prop
  | .revokeGrant id _ _ => id = grant ∧ tables.live grant
  | .amend amended => amended.id = grant ∧ tables.live grant
  | .stampRevoked id _ => id = grant ∧ tables.grants.contains grant
  | .revokeRefreshToken digest client => ∃ token, tables.refreshTokens.lookup digest = some token ∧
      token.client = client ∧ token.grant = grant
  | .revokeForSession session => grant ∈ tables.sessionGrants session
  | _ => False

/-- A cut-off of the grant covers everything up to `t`, for as long as it matters. -/
def Covers (cutoffs : Entries String Cutoff) (grant : String) (t : ℤ) : Prop :=
  ∃ cutoff, cutoffs.lookup grant = some cutoff ∧ t ≤ cutoff.revokedBefore ∧
    t + maxAccessTokenLifetime ≤ cutoff.expiresAt

variable {grant : String} {t : ℤ} {s : State} {token : TokenClaims}
  {cutoffs : Entries String Cutoff}

theorem Covers.withdraw (h : Covers cutoffs grant t)
    (principal : String) (now : ℤ) : Covers (Store.withdraw cutoffs principal now) grant t := by
  obtain ⟨cutoff, hlk, hbef, hexp⟩ := h
  unfold Store.withdraw
  by_cases hp : grant = principal
  · subst hp
    refine ⟨_, lookup_insert_self .., ?_⟩
    simp only [hlk]
    exact ⟨le_max_of_le_left hbef, le_max_of_le_left hexp⟩
  · exact ⟨cutoff, by rw [lookup_insert_of_ne _ _ hp, hlk], hbef, hexp⟩

theorem covers_withdraw_self (cutoffs : Entries String Cutoff) (grant : String) (now : ℤ) :
    Covers (Store.withdraw cutoffs grant now) grant now := by
  refine ⟨_, lookup_insert_self .., ?_⟩
  split
  · exact ⟨le_rfl, le_rfl⟩
  · exact ⟨le_max_right _ _, le_max_right _ _⟩

theorem Covers.foldl_withdraw (h : Covers cutoffs grant t) (grants : List String) (now : ℤ) :
    Covers (grants.foldl (fun cutoffs grant => Store.withdraw cutoffs grant now) cutoffs)
      grant t := by
  induction grants generalizing cutoffs with
  | nil => exact h
  | cons g grants ih => exact ih (h.withdraw g now)

theorem covers_foldl_withdraw {grants : List String} (hmem : grant ∈ grants)
    (cutoffs : Entries String Cutoff) (now : ℤ) :
    Covers (grants.foldl (fun cutoffs grant => Store.withdraw cutoffs grant now) cutoffs)
      grant now := by
  induction grants generalizing cutoffs with
  | nil => cases hmem
  | cons g grants ih =>
    rcases List.mem_cons.1 hmem with rfl | hrs
    · exact (covers_withdraw_self cutoffs grant now).foldl_withdraw grants now
    · exact ih hrs _

/-! ### What every operation keeps -/

/-- No row of the grant is live. -/
def Gone (grants : Entries String Grant) (grant : String) : Prop :=
  ∀ row, grants.lookup grant = some row → row.revokedAt.isSome

theorem gone_stampRevoked (tables : Tables) (grant : String) (reason : RevocationReason)
    (now : ℤ) : Gone (tables.stampRevoked grant reason now).grants grant := by
  intro row hrow
  rw [stampRevoked, lookup_updateWhere, Option.map_eq_some_iff] at hrow
  obtain ⟨old, -, rfl⟩ := hrow
  simpa using coalesce_isSome _ _

variable {tables : Tables}

/-- A grant that is gone stays gone: nothing takes a revocation back, and a new grant has a new
identifier. -/
theorem Gone.apply (h : Gone tables.grants grant) {op : Op}
    (hnew : grant ∉ op.newIds) (now : ℤ) : Gone (op.apply tables now).grants grant := by
  intro _ hrow'
  obtain ⟨row, hrow, hlat⟩ := Op.lookup_apply hrow' hnew
  obtain ⟨t, ht⟩ := Option.isSome_iff_exists.1 (h row hrow)
  exact Option.isSome_iff_exists.2 ⟨t, hlat.revokedAt t ht⟩

/-- A cut-off that covers the tokens up to `t` stays until they have expired. -/
theorem Covers.apply (h : Covers tables.grantCutoffs grant t) (op : Op) (now : ℤ) :
    Covers (op.apply tables now).grantCutoffs grant t ∨ t + maxAccessTokenLifetime ≤ now := by
  cases op with
  | purgeCutoffs clients grants =>
    obtain ⟨cutoff, hlk, hbef, hexp⟩ := h
    by_cases hexpd : cutoff.expiresAt ≤ now
    · exact .inr (hexp.trans hexpd)
    · refine .inl ⟨cutoff, ?_, hbef, hexp⟩
      have hfl := lookup_filter (fun k => decide (¬(k ∈ grants ∧
        (tables.grantCutoffs.lookup k).any (·.expiresAt ≤ now)))) tables.grantCutoffs grant
      simp only [Op.apply, purgeCutoffs, hfl, hlk]
      simp [hexpd]
  | amend amended =>
    refine .inl ?_
    simp only [Op.apply, amend]
    split_ifs
    · exact h.withdraw amended.id now
    · exact h
  | revokeGrant id =>
    refine .inl ?_
    simp only [Op.apply, revokeGrant]
    split_ifs
    · exact h.withdraw id now
    · exact h
  | revokeRefreshToken =>
    refine .inl ?_
    simp only [Op.apply, revokeRefreshToken]
    split
    · exact h
    · split_ifs
      · exact h.withdraw _ now
      · exact h
  | revokeForSession => exact .inl (h.foldl_withdraw _ now)
  | createGrant => exact .inl (by rwa [Op.apply, grantCutoffs_createGrant])
  | supersede =>
    exact .inl (by rwa [Op.apply, grantCutoffs_supersede])
  | issueRefreshToken =>
    exact .inl (by rwa [Op.apply, grantCutoffs_issueRefreshToken])
  | bindTask => exact .inl (by rwa [Op.apply, grantCutoffs_bindTask])
  | withdrawGrant id => exact .inl (h.withdraw id now)
  | claimGrant | deleteGrants | freezeRoot | rotateSession | stampRevoked | revokeRefreshTokensOf
  | redeemRefreshToken | withdrawClient | deny | purgeDenylist | purgeCodes | purgeRefreshTokens
  | mint => exact .inl h

/-! ### Histories -/

/-- The tokens of the grant up to `t` are over: the grant is gone, a cut-off covers them, or the
last of them has expired. -/
def Ended (grant : String) (t : ℤ) (s : State) : Prop :=
  t ≤ s.now ∧ ((grant ∈ s.ids ∧ Gone s.tables.grants grant) ∨
    Covers s.tables.grantCutoffs grant t ∨ t + maxAccessTokenLifetime ≤ s.now)

theorem Ended.step (s : State) (l : ℤ × Op) (s' : State) (hst : history.step s l s')
    (h : Ended grant t s) : Ended grant t s' := by
  obtain ⟨hnow, halw, rfl⟩ := hst
  obtain ⟨ht, hcas⟩ := h
  refine ⟨ht.trans hnow, ?_⟩
  rcases hcas with ⟨hid, hgo⟩ | hcov | hexpd
  · exact .inl ⟨Finset.mem_union_left _ hid, hgo.apply (not_mem_newIds halw hid) l.1⟩
  · exact .inr (hcov.apply l.2 l.1)
  · exact .inr (.inr (hexpd.trans hnow))

/-- Whatever withdraws a grant ends the tokens minted from it so far. -/
theorem ended_of_withdraws {s' : State} {l : ℤ × Op} (hkn : Known s.tables s.ids)
    (hst : history.step s l s') (h : l.2.Withdraws s.tables grant) : Ended grant l.1 s' := by
  obtain ⟨_, -, rfl⟩ := hst
  obtain ⟨now, op⟩ := l
  refine ⟨le_rfl, ?_⟩
  cases op with
  | revokeGrant =>
    obtain ⟨rfl, hlv⟩ := h
    refine .inr (.inl ?_)
    simp only [State.after, Op.apply, revokeGrant, hlv]
    exact covers_withdraw_self _ _ _
  | amend =>
    obtain ⟨rfl, hlv⟩ := h
    refine .inr (.inl ?_)
    simp only [State.after, Op.apply, amend, hlv]
    exact covers_withdraw_self _ _ _
  | stampRevoked id reason =>
    obtain ⟨rfl, hrow⟩ := h
    refine .inl ⟨Finset.mem_union_left _ (hkn id hrow), ?_⟩
    exact gone_stampRevoked s.tables id reason now
  | revokeRefreshToken =>
    obtain ⟨_, hlk, rfl, rfl⟩ := h
    refine .inr (.inl ?_)
    simp only [State.after, Op.apply, revokeRefreshToken, hlk]
    exact covers_withdraw_self _ _ _
  | revokeForSession => exact .inr (.inl (covers_foldl_withdraw h _ _))
  | _ => exact h.elim

/-! ### Tokens -/

/-- A token minted with the `grant_id` by some instant names its grant, was issued by then and
expires at most the longest lifetime later. -/
theorem MintedFrom.spec (h : MintedFrom grant true token t) :
    token.grantId = some grant ∧ token.iat ≤ unixTimestamp t ∧
    token.exp ≤ unixTimestamp (t + maxAccessTokenLifetime) := by
  obtain ⟨builder, claims, rfl, hca, his, hbu, hexp, htok⟩ := h
  obtain ⟨-, -, hcla, hiat, -, -, -, hgr, -⟩ := AccessToken.build_spec hbu
  have hlf : builder.lifetime ≤ AccessToken.maxLifetime := AccessToken.lifetime_le_of_build hbu
  refine ⟨?_, ?_, ?_⟩
  · rw [htok]
    simp [hgr, hca]
  · rw [htok]
    exact hiat.le.trans (unixTimestamp_mono his)
  · refine (hexp.trans hcla.le).trans (unixTimestamp_mono ?_)
    have hend := builder.expiresAt_le
    have hmax : AccessToken.maxLifetime = maxAccessTokenLifetime := rfl
    omega

/-- No endpoint accepts a token of a grant whose tokens are over. -/
theorem not_accepted_of_ended {t' now : ℤ} (hmt : MintedFrom grant true token t) (ht : t ≤ t')
    (h : Ended grant t' s) (hnow : s.now ≤ now) : ¬Accepted s.tables token now := by
  intro hacc
  obtain ⟨hgr, hiat, hexp⟩ := hmt.spec
  obtain ⟨-, ⟨-, hgo⟩ | ⟨cutoff, hlk, hbef, -⟩ | hexpd⟩ := h
  · obtain ⟨row, hrow, hact⟩ := hacc.active grant hgr
    have hrev := hgo row hrow
    rw [Grant.revokedAt_eq_none_of_active hact] at hrev
    cases hrev
  · have hmk := le_revokedBefore token.clientId hlk
    obtain ⟨mark, hmk, hle⟩ := hmk
    have hunc := hacc.uncut
    rw [hgr, hmk] at hunc
    have hcut : token.iat ≤ unixTimestamp mark :=
      hiat.trans (unixTimestamp_mono (ht.trans (hbef.trans hle)))
    simp [withdrawn, hcut] at hunc
  · have hla : unixTimestamp (t + maxAccessTokenLifetime) ≤ unixTimestamp now :=
      unixTimestamp_mono (by omega)
    have := hacc.unexpired
    omega

/-- The labels of a history happened by its end, as they were allowed to. -/
theorem minted_of_mem {s' : State} {ls : List (ℤ × Op)} (h : history.Path s ls s') {carried : Bool}
    (hmem : (t, Op.mint grant carried token) ∈ ls) :
    MintedFrom grant carried token t ∧ t ≤ s'.now := by
  obtain ⟨_, _, _, _, -, ⟨-, halw, rfl⟩, hrs⟩ := h.exists_step_of_mem hmem
  refine ⟨halw, hrs.invariant (I := fun s => t ≤ s.now) ?_ le_rfl⟩
  rintro _ _ _ ⟨hnow, -, rfl⟩ hle
  exact hle.trans hnow

/-- Once a grant was revoked or amended, a refresh token of it was revoked, or a code drawn on it
was replayed, a token minted from it before with the `grant_id` claim is inactive to every caller
of introspection and refused by UserInfo, whatever happens afterwards. -/
theorem withdrawn_for_good {start : ℤ} {before after : List (ℤ × Op)} {s₁ s₂ s₃ : State}
    {l : ℤ × Op} {t : ℤ} {grant : String} {token : TokenClaims}
    (hbefore : history.Path (State.init start) before s₁)
    (hminted : (t, Op.mint grant true token) ∈ before)
    (hstep : history.step s₁ l s₂) (hwithdraws : l.2.Withdraws s₁.tables grant)
    (hafter : history.Path s₂ after s₃) (checks : Checks) (hnow : s₃.now ≤ checks.now) :
    (∀ caller, describeAccessToken checks s₃.tables caller token = false) ∧
      ∀ row, userInfo checks s₃.tables token ≠ .ok row := by
  obtain ⟨hfr, ht⟩ := minted_of_mem hbefore hminted
  have hkn := known_of_path hbefore
  have hend := hafter.invariant Ended.step (ended_of_withdraws hkn hstep hwithdraws)
  have href := not_accepted_of_ended hfr (ht.trans hstep.1) hend hnow
  refine ⟨fun caller => ?_, fun row hrow => href (accepted_of_userInfo hrow)⟩
  rw [Bool.eq_false_iff]
  exact fun hact => href (accepted_of_describeAccessToken hact)

/-! ### Two grants of one person -/

/-- A claimed grant of `ada` for the client `shop`. -/
def adaGrant (id : String) : Grant :=
  { Grant.new id "shop" "r1" 0 with
    user := some "ada"
    subject := some "ada"
    scopes := {"openid"}
    claimedAt := some 0 }

/-- A token of `ada`'s first grant. -/
def adaBuilder (carried : Bool) : AccessToken :=
  (AccessToken.new (adaGrant "g1") {"api"} none "j1" 0).withGrantIdWhen carried

/-- Its claims. -/
def adaToken (carried : Bool) : TokenClaims :=
  { exp := 300, iat := 0, aud := {"api"}, sub := "ada", clientId := "shop", jti := "j1"
    jkt := none, scope := {"openid"}, authorizationDetails := [], act := none, mayAct := none
    grantId := if carried then some "g1" else none, task := none }

/-- Both grants stand, and a token of the first was minted. -/
def adaOps (carried : Bool) : List (ℤ × Op) :=
  [(0, .createGrant (adaGrant "g1")), (0, .createGrant (adaGrant "g2")),
    (0, .mint "g1" carried (adaToken carried))]

/-- The state then. -/
def adaBefore (carried : Bool) : State := (adaOps carried).foldl State.after (State.init 0)

theorem adaPath (carried : Bool) :
    history.Path (State.init 0) (adaOps carried) (adaBefore carried) := by
  have hmt : MintedFrom "g1" carried (adaToken carried) 0 :=
    ⟨adaBuilder carried, adaToken carried, rfl, by cases carried <;> rfl, le_rfl,
      by cases carried <;> rfl, le_rfl, rfl⟩
  refine .cons ⟨le_rfl, ?_, rfl⟩ (.cons ⟨le_rfl, ?_, rfl⟩ (.cons ⟨le_rfl, hmt, rfl⟩ (.nil _)))
  · exact Finset.notMem_empty "g1"
  · exact (by decide : "g2" ∉ (∅ ∪ {"g1"} : Finset String))

/-- The revocation of the first grant, one second later. -/
def adaRevocation : ℤ × Op := (seconds 1, .revokeGrant "g1" .userRevoked ∅)

/-- The state after it. -/
def adaAfter (carried : Bool) : State := (adaBefore carried).after adaRevocation

theorem adaStep (carried : Bool) :
    history.step (adaBefore carried) adaRevocation (adaAfter carried) :=
  ⟨by decide +revert, trivial, rfl⟩

/-- Two seconds in. -/
def adaChecks : Checks :=
  { now := seconds 2, taskActive := fun _ => true, introspects := fun _ _ => false,
    senderConstrained := fun _ => true }

/-- Afterwards another grant is made, the denylist is purged and the grant is amended. -/
def adaLater : List (ℤ × Op) :=
  [(seconds 1, .createGrant (adaGrant "g3")), (seconds 2, .purgeDenylist {"j1"}),
    (seconds 2, .amend (adaGrant "g1"))]

/-- The state in the end. -/
def adaEnd : State := adaLater.foldl State.after (adaAfter true)

theorem withdrawn_for_good_ada :
    history.Path (adaAfter true) adaLater adaEnd ∧
      (∀ caller, describeAccessToken adaChecks adaEnd.tables caller (adaToken true) = false) ∧
      ∀ row, userInfo adaChecks adaEnd.tables (adaToken true) ≠ .ok row := by
  have hwi : adaRevocation.2.Withdraws (adaBefore true).tables "g1" := ⟨rfl, rfl⟩
  have hmt : (0, Op.mint "g1" true (adaToken true)) ∈ adaOps true := by simp [adaOps]
  have hlat : history.Path (adaAfter true) adaLater adaEnd :=
    .cons ⟨le_rfl, (by decide : "g3" ∉ (adaAfter true).ids), rfl⟩
      (.cons ⟨by decide, trivial, rfl⟩ (.cons ⟨le_rfl, trivial, rfl⟩ (.nil _)))
  exact ⟨hlat, withdrawn_for_good (adaPath true) hmt (adaStep true) hwi hlat adaChecks (by decide)⟩

/-- Without the claim, the token of the revoked grant is active to its client, and UserInfo answers
it from the other grant. -/
theorem revoked_grant_still_active :
    history.Path (State.init 0) (adaOps false) (adaBefore false) ∧
    (0, Op.mint "g1" false (adaToken false)) ∈ adaOps false ∧
    history.step (adaBefore false) adaRevocation (adaAfter false) ∧
    adaRevocation.2.Withdraws (adaBefore false).tables "g1" ∧
    describeAccessToken adaChecks (adaAfter false).tables "shop" (adaToken false) = true ∧
    userInfo adaChecks (adaAfter false).tables (adaToken false) = .ok (adaGrant "g2") := by
  refine ⟨adaPath false, by simp [adaOps], adaStep false, ⟨rfl, rfl⟩, ?_, ?_⟩
  · rfl
  · rfl

end AsteriusIdp.Store
