import AsteriusIdp.Token.Replay

/-!
# Families of refresh tokens

A refresh presents a refresh token and returns one: the same, or under a rotating policy a
replacement.  The scopes of a stored token never change.  A replacement is stored with the scopes
of its refresh, so what a refresh gave up is gone for its successors; where the same token is
returned, its row still holds the scopes it was issued with.

A replacement inherits the grant, the client, the binding and the absolute deadline.  A grant can
come under a task while its refresh tokens are in use, and from then on none of them outlives the
task, so deadlines are compared together with it.

* `Credentials`: how stored tokens, requests and returned tokens belong together; every step keeps
  it.
* `refreshes_narrow`: along the successors of a refresh, if each of them rotates or gives nothing
  up, no access token exceeds its scopes, and all of them are one credential.
* `refresh_widens_again`: otherwise a scope that a refresh gave up comes back.
-/

namespace AsteriusIdp.Token

open Fallible Issuance Store Transition Entries Tables

/-! ### Deadlines -/

/-- When a refresh token ends: at its absolute deadline, or before it with the task of its grant. -/
def deadline (tables : Tables) (token : RefreshToken) : ℤ :=
  match tables.taskExpiries.lookup token.grant with
  | none => token.absoluteExpiresAt
  | some expiresAt => min token.absoluteExpiresAt expiresAt

/-- Two rows are one credential: what it is for, who holds it and when it ends. -/
structure SameCredential (tables : Tables) (token token' : RefreshToken) : Prop where
  grant : token'.grant = token.grant
  client : token'.client = token.client
  binding : token'.binding = token.binding
  deadline : deadline tables token' = deadline tables token

/-- One credential with the same scopes. -/
structure Kept (tables : Tables) (token token' : RefreshToken) : Prop
    extends SameCredential tables token token' where
  scopes : token'.scopes = token.scopes

/-- A grant that is under a task stays under it. -/
def TasksStay (tables tables' : Tables) : Prop :=
  ∀ grant t, tables.taskExpiries.lookup grant = some t → tables'.taskExpiries.lookup grant = some t

section

variable {tables tables' : Tables} {token token' token'' : RefreshToken}

theorem SameCredential.refl (tables : Tables) (token : RefreshToken) :
    SameCredential tables token token :=
  ⟨rfl, rfl, rfl, rfl⟩

section

variable (h : SameCredential tables token token')
include h

theorem SameCredential.symm : SameCredential tables token' token :=
  ⟨h.grant.symm, h.client.symm, h.binding.symm, h.deadline.symm⟩

theorem SameCredential.trans
    (h' : SameCredential tables token' token'') : SameCredential tables token token'' :=
  ⟨h'.grant.trans h.grant, h'.client.trans h.client, h'.binding.trans h.binding,
    h'.deadline.trans h.deadline⟩

/-- A grant that comes under a task shortens all its refresh tokens alike. -/
theorem SameCredential.stay
    (hsy : TasksStay tables tables') : SameCredential tables' token token' := by
  refine ⟨h.grant, h.client, h.binding, ?_⟩
  have hdl := h.deadline
  unfold Token.deadline at hdl ⊢
  rw [h.grant] at hdl ⊢
  cases htk : tables.taskExpiries.lookup token.grant with
  | some t =>
    rw [hsy token.grant t htk]
    simpa [htk] using hdl
  | none =>
    have habs : token'.absoluteExpiresAt = token.absoluteExpiresAt := by
      simpa [htk] using hdl
    rw [habs]

end

theorem Kept.refl (tables : Tables) (token : RefreshToken) : Kept tables token token :=
  ⟨.refl tables token, rfl⟩

theorem Kept.trans (h : Kept tables token token') (h' : Kept tables token' token'') :
    Kept tables token token'' :=
  ⟨h.toSameCredential.trans h'.toSameCredential, h'.scopes.trans h.scopes⟩

theorem Kept.stay (h : Kept tables token token') (hsy : TasksStay tables tables') :
    Kept tables' token token' :=
  ⟨h.toSameCredential.stay hsy, h.scopes⟩

/-! ### What statements make of a refresh token -/

theorem kept_boundTaskRefresh (tables : Tables) (token : RefreshToken) :
    Kept tables token (tables.boundTaskRefresh token) := by
  unfold boundTaskRefresh
  split
  next => exact .refl tables token
  next expiresAt htk =>
    refine ⟨⟨rfl, rfl, rfl, ?_⟩, rfl⟩
    simp [Token.deadline, htk]

theorem kept_used (tables : Tables) (nextIdle : Option ℤ) (token : RefreshToken) :
    Kept tables token (tables.used nextIdle token) := by
  unfold used
  have hpu : Kept tables token
      { token with idleExpiresAt := nextIdle.map (min · token.absoluteExpiresAt) } :=
    ⟨⟨rfl, rfl, rfl, rfl⟩, rfl⟩
  split_ifs
  · exact hpu
  · exact hpu.trans (kept_boundTaskRefresh tables _)

/-- Every refresh token of the second table that is not new is one of the first. -/
def Keeps (tables : Tables) (new : Finset String) (tokens' : Entries String RefreshToken) : Prop :=
  ∀ digest row', tokens'.lookup digest = some row' → digest ∉ new →
    ∃ row, tables.refreshTokens.lookup digest = some row ∧ Kept tables row row'

theorem keeps_refl (tables : Tables) (new : Finset String) :
    Keeps tables new tables.refreshTokens :=
  fun _ row hrow _ => ⟨row, hrow, .refl tables row⟩

theorem Keeps.updateWhere {new : Finset String} {tokens' : Entries String RefreshToken}
    (h : Keeps tables new tokens') (p : String → RefreshToken → Bool)
    {f : RefreshToken → RefreshToken} (hf : ∀ row, Kept tables row (f row)) :
    Keeps tables new (tokens'.updateWhere p f) := by
  intro digest _ hrow' hnew
  rw [lookup_updateWhere, Option.map_eq_some_iff] at hrow'
  obtain ⟨row, hrow, rfl⟩ := hrow'
  obtain ⟨row₀, hrow₀, hkp⟩ := h digest row hrow hnew
  refine ⟨row₀, hrow₀, ?_⟩
  split_ifs
  · exact hkp.trans (hf row)
  · exact hkp

section

variable (tables)

theorem keeps_insert (digest : String) (token : RefreshToken) :
    Keeps tables {digest} (tables.refreshTokens.insert digest token) := by
  intro digest' row' hrow' hnew
  rw [lookup_insert_of_ne _ _ (by simpa using hnew)] at hrow'
  exact ⟨row', hrow', .refl tables row'⟩

theorem keeps_revokeRefreshTokensOf (grant : String) (now : ℤ) :
    Keeps tables ∅ (tables.revokeRefreshTokensOf grant now).refreshTokens := by
  dsimp only [revokeRefreshTokensOf]
  exact (keeps_refl tables ∅).updateWhere _ fun row => ⟨⟨rfl, rfl, rfl, rfl⟩, rfl⟩

theorem keeps_redeemRefreshToken (digest : String) (now grace : ℤ) (nextIdle : Option ℤ) :
    Keeps tables ∅ (tables.redeemRefreshToken digest now grace nextIdle).refreshTokens := by
  dsimp only [redeemRefreshToken]
  exact (keeps_refl tables ∅).updateWhere _ fun row => kept_used tables nextIdle row

theorem keeps_issueRefreshToken (digest : String) (token : RefreshToken) :
    Keeps tables {digest} (tables.issueRefreshToken digest token).refreshTokens := by
  unfold issueRefreshToken
  split_ifs
  · exact keeps_refl tables _
  · exact keeps_insert tables digest _

theorem keeps_supersede (superseded digest : String) (token : RefreshToken)
    (now : ℤ) :
      Keeps tables {digest} (tables.supersede superseded digest token now).refreshTokens := by
  unfold supersede
  split_ifs
  · exact keeps_refl tables _
  · dsimp only
    exact (keeps_insert tables digest _).updateWhere _ fun row => ⟨⟨rfl, rfl, rfl, rfl⟩, rfl⟩

theorem keeps_revokeRefreshToken (digest client : String) (now : ℤ) :
    Keeps tables ∅ (tables.revokeRefreshToken digest client now).refreshTokens := by
  unfold revokeRefreshToken
  split
  · exact keeps_refl tables ∅
  · split_ifs
    · dsimp only
      exact (keeps_refl tables ∅).updateWhere _ fun row => ⟨⟨rfl, rfl, rfl, rfl⟩, rfl⟩
    · exact keeps_refl tables ∅

theorem keeps_revokeForSession (session : String) (now : ℤ) :
    Keeps tables ∅ (tables.revokeForSession session now).refreshTokens := by
  dsimp only [revokeForSession]
  exact (keeps_refl tables ∅).updateWhere _ fun row => ⟨⟨rfl, rfl, rfl, rfl⟩, rfl⟩

theorem keeps_purgeRefreshTokens (digests : Finset String) (now : ℤ) :
    Keeps tables ∅ (tables.purgeRefreshTokens digests now).refreshTokens := by
  intro digest row' hrow' _
  have hfl := lookup_filter (fun k => decide (¬(k ∈ digests ∧
    (tables.refreshTokens.lookup k).any (·.absoluteExpiresAt ≤ now)))) tables.refreshTokens digest
  simp only [purgeRefreshTokens, hfl] at hrow'
  split_ifs at hrow'
  exact ⟨row', hrow', .refl tables row'⟩

end

/-- The digests of the refresh tokens an operation brings in. -/
def newDigests : Op → Finset String
  | .issueRefreshToken digest _ => {digest}
  | .supersede _ digest _ => {digest}
  | _ => ∅

/-- What an operation makes of the refresh tokens that it does not bring in. -/
theorem keeps_apply (tables : Tables) (op : Op) (now : ℤ) :
    Keeps tables (newDigests op) (op.apply tables now).refreshTokens := by
  cases op with
  | issueRefreshToken digest token => exact keeps_issueRefreshToken tables digest token
  | supersede superseded digest token =>
    exact keeps_supersede tables superseded digest token now
  | redeemRefreshToken digest grace nextIdle =>
    exact keeps_redeemRefreshToken tables digest now grace nextIdle
  | revokeRefreshToken digest client => exact keeps_revokeRefreshToken tables digest client now
  | revokeRefreshTokensOf grant => exact keeps_revokeRefreshTokensOf tables grant now
  | revokeForSession session => exact keeps_revokeForSession tables session now
  | purgeRefreshTokens digests => exact keeps_purgeRefreshTokens tables digests now
  | amend grant =>
    simp only [Op.apply, amend]
    split_ifs
    · exact keeps_revokeRefreshTokensOf tables grant.id now
    · exact keeps_refl tables _
  | revokeGrant grant =>
    simp only [Op.apply, revokeGrant]
    split_ifs
    · exact keeps_revokeRefreshTokensOf tables grant now
    · exact keeps_refl tables _
  | createGrant | bindTask =>
    simp only [Op.apply, createGrant, bindTask]
    split_ifs <;> exact keeps_refl tables _
  | claimGrant | deleteGrants | freezeRoot | rotateSession | stampRevoked | withdrawGrant
  | withdrawClient | deny | purgeDenylist | purgeCutoffs | purgeCodes | mint =>
    exact keeps_refl tables _

theorem tasksStay_apply (tables : Tables) (op : Op) (now : ℤ) :
    TasksStay tables (op.apply tables now) := by
  intro grant _ htk
  cases op with
  | bindTask id =>
    simp only [Op.apply, bindTask]
    split_ifs with hbd
    · exact htk
    · have hne : grant ≠ id := by
        rintro rfl
        simp [contains, htk] at hbd
      rwa [lookup_insert_of_ne _ _ hne]
  | createGrant | amend | revokeGrant | supersede | issueRefreshToken =>
    simp only [Op.apply, createGrant, amend, revokeGrant, supersede, issueRefreshToken]
    split_ifs <;> exact htk
  | revokeRefreshToken =>
    simp only [Op.apply, revokeRefreshToken]
    split
    · exact htk
    · split_ifs <;> exact htk
  | _ => exact htk

/-- A replacement is stored as it was computed, but for the task of its grant. -/
theorem lookup_supersede_self (superseded : String) {digest : String} (token : RefreshToken)
    (now : ℤ) (hnew : tables.refreshTokens.lookup digest = none) :
    ∃ row, (tables.supersede superseded digest token now).refreshTokens.lookup digest = some row ∧
    Kept tables token row := by
  have hcon : tables.refreshTokens.contains digest = false := by
    rw [contains, hnew]
    rfl
  have hbd := kept_boundTaskRefresh tables token
  simp only [supersede, hcon, Bool.false_eq_true, if_false, lookup_updateWhere,
    lookup_insert_self, Option.map_some, Option.some.injEq, exists_eq_left']
  split_ifs
  · exact hbd.trans ⟨⟨rfl, rfl, rfl, rfl⟩, rfl⟩
  · exact hbd

end

/-! ### What a statement of a request does -/

section

variable {parseUrl : UrlParser} {input : Input} {tables : Tables} {phase : Phase}
  {result : Tables × Phase}

theorem Keeps.mono {new new' : Finset String} {tokens' : Entries String RefreshToken}
    (h : Keeps tables new tokens') (hsub : new ⊆ new') : Keeps tables new' tokens' :=
  fun digest row hrow hnew => h digest row hrow fun hmem => hnew (hsub hmem)

theorem Moves.keeps (h : Moves parseUrl input tables phase result) :
    Keeps tables {input.freshDigest} result.1.refreshTokens := by
  have hcl : ∀ claimed id now, claimed = tables ∨ claimed = tables.claimGrant id now →
      Keeps tables {input.freshDigest} claimed.refreshTokens := by
    rintro _ _ now (h | h) <;> rw [h] <;> exact keeps_refl tables _
  cases h with
  | claims targeting h => exact hcl _ _ _ (claim_ok h)
  | reclaims record effective h => exact hcl _ _ _ (claim_ok h)
  | signs req grant | @mints _ _ grant => exact hcl _ _ _ (signing_eq input tables grant)
  | issues =>
    split_ifs
    · exact keeps_issueRefreshToken tables _ _
    · exact keeps_refl tables _
  | supersedes => exact keeps_supersede tables _ _ _ _
  | revokes now grant => exact (keeps_revokeRefreshTokensOf tables grant now).mono (by simp)
  | accepts => exact (keeps_redeemRefreshToken tables _ _ _ _).mono (by simp)
  | stays | refuses | spends | misses | detects | stamps | finds | authorizes | returns =>
    exact keeps_refl tables _

theorem Moves.taskExpiries (h : Moves parseUrl input tables phase result) :
    result.1.taskExpiries = tables.taskExpiries := by
  have hcl : ∀ claimed id now, claimed = tables ∨ claimed = tables.claimGrant id now →
      claimed.taskExpiries = tables.taskExpiries := by
    rintro _ _ _ (h | h)
    · rw [h]
    · rw [h]
      rfl
  cases h with
  | claims targeting h => exact hcl _ _ _ (claim_ok h)
  | reclaims record effective h => exact hcl _ _ _ (claim_ok h)
  | signs req grant | @mints _ _ grant => exact hcl _ _ _ (signing_eq input tables grant)
  | issues | supersedes =>
    simp only [issueRefreshToken, supersede]
    split_ifs <;> rfl
  | stays | refuses | spends | misses | detects | stamps | revokes | finds | accepts | authorizes
  | returns => rfl

/-- The refresh token that a request redeemed, with its digest. -/
def Phase.record : Phase → Option (String × RefreshToken)
  | .accepted request record | .authorized request record _ _ | .reclaimed request record _ _ =>
    some (request.digest, record)
  | .minted use | .refreshed use _ => some (use.request.digest, use.record)
  | _ => none

/-- The scopes a refresh asks for, those of the refresh token, and those of the refresh. -/
def Phase.narrowed : Phase → Option (Option String × Finset String × Finset String)
  | .authorized request record _ effective | .reclaimed request record _ effective =>
    some (request.scope, record.scopes, effective)
  | .minted use | .refreshed use _ => some (use.request.scope, use.record.scopes, use.effective)
  | _ => none

/-- The refresh that a token was signed for. -/
def Phase.use : Phase → Option Use
  | .minted use | .refreshed use _ => some use
  | _ => none

section

variable (h : Moves parseUrl input tables phase result)
include h

/-- A record is read from its row. -/
theorem Moves.record {digest : String}
    {record : RefreshToken} (hrec : result.2.record = some (digest, record)) :
    phase.record = some (digest, record) ∨
    ∃ row, tables.refreshTokens.lookup digest = some row ∧ Kept tables row record := by
  cases h with
  | @accepts req token htok =>
    obtain ⟨rfl, rfl⟩ := hrec
    exact .inr ⟨token, htok, kept_used tables _ token⟩
  | authorizes | reclaims | mints | supersedes | returns | stays => exact .inl hrec
  | _ => cases hrec

/-- A refresh gets what it asks for out of the scopes of its record. -/
theorem Moves.narrowed {raw : Option String} {scopes effective : Finset String}
    (hnar : result.2.narrowed = some (raw, scopes, effective)) :
    phase.narrowed = some (raw, scopes, effective) ∨
      requestedScopes raw scopes = .ok effective := by
  cases h with
  | @authorizes req record grant requested hau =>
    obtain ⟨rfl, rfl, rfl⟩ := hnar
    exact .inr (authorize_ok hau).2
  | reclaims | mints | supersedes | returns | stays => exact .inl hnar
  | _ => cases hnar

/-- The token of a refresh carries the scopes of the refresh. -/
theorem Moves.use {use : Use} (huse : result.2.use = some use) :
    phase.use = some use ∨ use.token.scope = use.effective := by
  cases h with
  | mints record hsg =>
    cases huse
    exact .inr (Minting.signRefresh_spec hsg).1
  | supersedes | returns | stays => exact .inl huse
  | _ => cases huse

/-- What a refresh returns. -/
theorem Moves.returned {use : Use} {returned : String} (hret : result.2 = .refreshed use returned) :
    phase = .refreshed use returned ∨ phase = .minted use ∧
    (use.request.policy.rotates ∧ returned = input.freshDigest ∧
        result.1 = tables.supersede use.request.digest input.freshDigest
          (use.request.replacement use.record use.effective) use.request.minting.now ∨
      use.request.policy.rotates = false ∧ returned = use.request.digest) := by
  cases h with
  | supersedes hrot =>
    cases hret
    exact .inr ⟨rfl, .inl ⟨hrot, rfl, rfl⟩⟩
  | returns hrot =>
    cases hret
    exact .inr ⟨rfl, .inr ⟨hrot, rfl⟩⟩
  | stays => exact .inl hret
  | _ => cases hret

end

end

/-! ### Credentials along a run -/

section

variable {parseUrl : UrlParser} {s s' : State} {l : Label}

section

variable (hstep : (endpoint parseUrl).step s l s')
include hstep

/-- What was issued once is remembered. -/
theorem remembers_step {digest : String} {token : RefreshToken}
    (h : s.refreshTokens digest = some token) : s'.refreshTokens digest = some token := by
  cases l with
  | present | refresh =>
    obtain ⟨-, rfl⟩ := hstep
    exact h
  | refuse =>
    obtain ⟨-, -, rfl⟩ := hstep
    exact h
  | issueCode =>
    obtain ⟨-, -, -, rfl⟩ := hstep
    exact h
  | advance | other =>
    obtain ⟨-, rfl⟩ := hstep
    simp [State.answer, State.write, h]

theorem tasksStay_step : TasksStay s.tables s'.tables := by
  cases l with
  | present | refresh =>
    obtain ⟨-, rfl⟩ := hstep
    exact fun _ _ h => h
  | refuse =>
    obtain ⟨-, -, rfl⟩ := hstep
    exact fun _ _ h => h
  | issueCode =>
    obtain ⟨-, -, -, rfl⟩ := hstep
    exact fun _ _ h => h
  | advance r input =>
    obtain ⟨-, rfl⟩ := hstep
    intro _ _ h
    have hmvs := moves_next parseUrl input s.tables (s.requests r)
    exact hmvs.taskExpiries ▸ h
  | other now op =>
    obtain ⟨-, rfl⟩ := hstep
    exact tasksStay_apply s.tables op now

/-- A refresh token is there before a step, or it is new and remembered as it is. -/
theorem refreshTokens_step {digest : String}
    {row' : RefreshToken} (hrow' : s'.tables.refreshTokens.lookup digest = some row') :
    (∃ row, s.tables.refreshTokens.lookup digest = some row ∧ Kept s.tables row row') ∨
      s.refreshTokens digest = none ∧ s'.refreshTokens digest = some row' := by
  cases l with
  | present | refresh =>
    obtain ⟨-, rfl⟩ := hstep
    exact .inl ⟨row', hrow', .refl _ _⟩
  | refuse =>
    obtain ⟨-, -, rfl⟩ := hstep
    exact .inl ⟨row', hrow', .refl _ _⟩
  | issueCode =>
    obtain ⟨-, -, -, rfl⟩ := hstep
    exact .inl ⟨row', hrow', .refl _ _⟩
  | advance r input =>
    obtain ⟨hfr, rfl⟩ := hstep
    by_cases hnew : digest = input.freshDigest
    · subst hnew
      refine .inr ⟨hfr, ?_⟩
      simp only [State.answer, State.write, hfr]
      exact hrow'
    · have hmvs := moves_next parseUrl input s.tables (s.requests r)
      exact .inl (hmvs.keeps digest row' hrow' (by simpa using hnew))
  | other now op =>
    obtain ⟨hou, rfl⟩ := hstep
    by_cases hnew : digest ∈ newDigests op
    · have hfr : s.refreshTokens digest = none := by
        cases op with
        | issueRefreshToken | supersede => exact Finset.mem_singleton.1 hnew ▸ hou
        | _ => cases hnew
      refine .inr ⟨hfr, ?_⟩
      simp only [State.write, hfr]
      exact hrow'
    · exact .inl (keeps_apply s.tables op now digest row' hrow' hnew)

end

/-- What a refresh returned: a token that replaces its record and has the scopes of the refresh, or
the digest it presented. -/
def Returned (s : State) (use : Use) (returned : String) : Prop :=
  use.request.policy.rotates ∧ (∃ issued, s.refreshTokens returned = some issued ∧
      SameCredential s.tables use.record issued ∧ issued.scopes = use.effective) ∨
    use.request.policy.rotates = false ∧ returned = use.request.digest

/-- How stored tokens, requests and returned tokens belong together. -/
structure Credentials (s : State) : Prop where
  stored : ∀ digest row, s.tables.refreshTokens.lookup digest = some row →
    ∃ issued, s.refreshTokens digest = some issued ∧ Kept s.tables issued row
  record : ∀ r digest record, (s.requests r).record = some (digest, record) →
    ∃ issued, s.refreshTokens digest = some issued ∧ Kept s.tables issued record
  narrowed : ∀ r raw scopes effective, (s.requests r).narrowed = some (raw, scopes, effective) →
    requestedScopes raw scopes = .ok effective
  use : ∀ r use, (s.requests r).use = some use → use.token.scope = use.effective
  returned : ∀ r use returned, s.requests r = .refreshed use returned → Returned s use returned

theorem credentials_init : Credentials State.init := by
  refine ⟨fun _ _ h => ?_, fun _ _ _ h => ?_, fun _ _ _ _ h => ?_, fun _ _ h => ?_,
    fun _ _ _ h => ?_⟩ <;> cases h

theorem Returned.step (hstep : (endpoint parseUrl).step s l s') {use : Use} {returned : String}
    (h : Returned s use returned) : Returned s' use returned := by
  rcases h with ⟨hrot, issued, his, hsm, hscs⟩ | hkp
  · exact .inl ⟨hrot, issued, remembers_step hstep his, hsm.stay (tasksStay_step hstep), hscs⟩
  · exact .inr hkp

/-- A replacement that was just stored. -/
theorem Credentials.supersede (h : Credentials s) {input : Input} {use : Use}
    (hrot : use.request.policy.rotates) (hfr : s.refreshTokens input.freshDigest = none)
    (htab : s'.tables = s.tables.supersede use.request.digest input.freshDigest
      (use.request.replacement use.record use.effective) use.request.minting.now)
    (hrem : s'.refreshTokens = (s.write s'.tables).refreshTokens)
    (hsy : TasksStay s.tables s'.tables) : Returned s' use input.freshDigest := by
  have hnew : s.tables.refreshTokens.lookup input.freshDigest = none := by
    by_contra hold
    obtain ⟨row, hrow⟩ := Option.ne_none_iff_exists'.1 hold
    obtain ⟨issued, his, -⟩ := h.stored _ row hrow
    cases hfr.symm.trans his
  obtain ⟨row, hrow, hkp⟩ := lookup_supersede_self use.request.digest
    (use.request.replacement use.record use.effective) use.request.minting.now hnew
  refine .inl ⟨hrot, row, ?_, ?_, hkp.scopes⟩
  · rw [hrem, State.write, htab]
    simpa [hfr] using hrow
  · have hinh : SameCredential s.tables use.record
        (use.request.replacement use.record use.effective) := ⟨rfl, rfl, rfl, rfl⟩
    exact (hinh.trans hkp.toSameCredential).stay hsy

theorem Credentials.step (hstep : (endpoint parseUrl).step s l s') (h : Credentials s) :
    Credentials s' := by
  have hsy := tasksStay_step hstep
  have hkp : ∀ digest token, (∃ issued, s.refreshTokens digest = some issued ∧
      Kept s.tables issued token) →
      ∃ issued, s'.refreshTokens digest = some issued ∧ Kept s'.tables issued token := by
    rintro digest _ ⟨issued, his, hkp⟩
    exact ⟨issued, remembers_step hstep his, hkp.stay hsy⟩
  refine ⟨fun digest row' hrow' => ?_, fun r digest record hrec => ?_,
    fun r raw scopes effective hnar => ?_, fun r use huse => ?_, fun r use returned hret => ?_⟩
  · rcases refreshTokens_step hstep hrow' with ⟨row, hrow, hsm⟩ | ⟨-, hrem⟩
    · obtain ⟨issued, his, hrow⟩ := h.stored digest row hrow
      exact hkp digest row' ⟨issued, his, hrow.trans hsm⟩
    · exact ⟨row', hrem, .refl _ _⟩
  · obtain hbef | ⟨input, result, -, hmvs, hrec, -⟩ :=
      requests_step (·.record = some (digest, record)) (by simp [Phase.record]) hstep hrec
    · exact hkp digest record (h.record r digest record hbef)
    · rcases hmvs.record hrec with hbef | ⟨row, hrow, hsm⟩
      · exact hkp digest record (h.record r digest record hbef)
      · obtain ⟨issued, his, hrow⟩ := h.stored digest row hrow
        exact hkp digest record ⟨issued, his, hrow.trans hsm⟩
  · obtain hbef | ⟨input, result, -, hmvs, hnar, -⟩ :=
      requests_step (·.narrowed = some (raw, scopes, effective))
        (by simp [Phase.narrowed]) hstep hnar
    · exact h.narrowed r raw scopes effective hbef
    · rcases hmvs.narrowed hnar with hbef | hreq
      · exact h.narrowed r raw scopes effective hbef
      · exact hreq
  · obtain hbef | ⟨input, result, -, hmvs, huse, -⟩ :=
      requests_step (·.use = some use) (by simp [Phase.use]) hstep huse
    · exact h.use r use hbef
    · rcases hmvs.use huse with hbef | hsc
      · exact h.use r use hbef
      · exact hsc
  · obtain hbef | ⟨_, _, hfr, hmvs, hret, htab, hrem⟩ :=
      requests_step (· = .refreshed use returned) (by simp) hstep hret
    · exact (h.returned r use returned hbef).step hstep
    · rcases hmvs.returned hret with hbef | ⟨-, ⟨hrot, rfl, hres⟩ | hkee⟩
      · exact (h.returned r use returned hbef).step hstep
      · exact h.supersede hrot hfr (htab.trans hres) (htab ▸ hrem) hsy
      · exact .inr hkee

theorem credentials_of_path {ls : List Label} (h : (endpoint parseUrl).Path State.init ls s) :
    Credentials s :=
  h.invariant (I := Credentials) (fun _ _ _ hstep h => h.step hstep) credentials_init

/-! ### Successors -/

/-- A request was answered with this refresh and this refresh token. -/
def Refreshed (s : State) (answer : Use × String) : Prop :=
  ∃ r, s.requests r = .refreshed answer.1 answer.2

/-- What the refresh gave up is written down: it rotates, or it gave nothing up because it asks for
every scope of the token it presents. -/
def Use.Lasting (use : Use) : Prop :=
  use.request.policy.rotates ∨
    requestedScopes use.request.scope use.record.scopes = .ok use.record.scopes

/-- The second refresh presents what the first returned. -/
def Succeeds (s : State) (first second : Use × String) : Prop :=
  Refreshed s second ∧ second.1.request.digest = first.2 ∧ first.1.Lasting

/-- A refresh token that was returned is the credential that was presented. -/
theorem Credentials.same_returned (h : Credentials s) {answer : Use × String}
    (hans : Refreshed s answer) :
    ∃ issued, s.refreshTokens answer.2 = some issued ∧
    SameCredential s.tables answer.1.record issued := by
  obtain ⟨r, hr⟩ := hans
  rcases h.returned r _ _ hr with ⟨-, issued, his, hsm, -⟩ | ⟨-, hret⟩
  · exact ⟨issued, his, hsm⟩
  · obtain ⟨issued, his, hkp⟩ := h.record r answer.1.request.digest answer.1.record
      (by rw [hr]; rfl)
    exact ⟨issued, hret ▸ his, hkp.toSameCredential.symm⟩

/-- A refresh token that was returned has the scopes of the refresh, if what it gave up lasts. -/
theorem Credentials.scopes_returned (h : Credentials s) {answer : Use × String}
    (hans : Refreshed s answer) (hla : answer.1.Lasting) {issued : RefreshToken}
    (his : s.refreshTokens answer.2 = some issued) : issued.scopes = answer.1.effective := by
  obtain ⟨r, hr⟩ := hans
  rcases h.returned r _ _ hr with ⟨-, issued', his', -, hscs⟩ | ⟨hrot, hret⟩
  · cases his.symm.trans his'
    exact hscs
  · -- The same token came back, so the refresh asked for all of its scopes.
    have hall := hla.resolve_left (by simp [hrot])
    have heff := h.narrowed r _ _ _ (by rw [hr]; rfl)
    obtain ⟨_, his', hkp⟩ := h.record r answer.1.request.digest answer.1.record
      (by rw [hr]; rfl)
    rw [hret] at his
    cases his.symm.trans his'
    rw [← hkp.scopes]
    exact Except.ok.inj (hall.symm.trans heff)

/-- One refresh after another. -/
theorem Credentials.succeeds (h : Credentials s) {first second : Use × String}
    (hfst : Refreshed s first) (hnx : Succeeds s first second) :
    second.1.effective ⊆ first.1.effective ∧
    SameCredential s.tables first.1.record second.1.record := by
  obtain ⟨⟨r, hr⟩, hpr, hla⟩ := hnx
  obtain ⟨_, his, hsm⟩ := h.same_returned hfst
  have hscs := h.scopes_returned hfst hla his
  obtain ⟨_, his', hkp⟩ := h.record r second.1.request.digest second.1.record
    (by rw [hr]; rfl)
  rw [hpr] at his'
  cases his.symm.trans his'
  have hreq := h.narrowed r _ _ _ (by rw [hr]; rfl)
  refine ⟨?_, hsm.trans hkp.toSameCredential⟩
  calc second.1.effective ⊆ second.1.record.scopes := requestedScopes_subset hreq
    _ = first.1.effective := hkp.scopes.trans hscs

/-- Along the successors of a refresh, as long as each rotates or gives nothing up: no access token
exceeds the scopes of the first, and every token presented or returned is one credential. -/
theorem refreshes_narrow {ls : List Label} (hpath : (endpoint parseUrl).Path State.init ls s)
    {first last : Use × String} (hfirst : Refreshed s first)
    (hchain : Relation.ReflTransGen (Succeeds s) first last) :
    last.1.token.scope ⊆ first.1.effective ∧ SameCredential s.tables first.1.record last.1.record ∧
    ∃ issued, s.refreshTokens last.2 = some issued ∧
    SameCredential s.tables first.1.record issued := by
  have h := credentials_of_path hpath
  have hla : Refreshed s last ∧ last.1.effective ⊆ first.1.effective ∧
      SameCredential s.tables first.1.record last.1.record := by
    induction hchain with
    | refl => exact ⟨hfirst, subset_rfl, .refl _ _⟩
    | tail _ hnx ih =>
      obtain ⟨hrfd, hscs, hsm⟩ := ih
      obtain ⟨hscs', hsm'⟩ := h.succeeds hrfd hnx
      exact ⟨hnx.1, hscs'.trans hscs, hsm.trans hsm'⟩
  obtain ⟨hrfd, hscs, hsm⟩ := hla
  obtain ⟨issued, his, hret⟩ := h.same_returned hrfd
  refine ⟨?_, hsm, issued, his, hsm.trans hret⟩
  obtain ⟨r, hr⟩ := hrfd
  rw [h.use r last.1 (by rw [hr]; rfl)]
  exact hscs

end

/-! ### A scope that was given up -/

/-- A refresh token for reading and writing. -/
def readWriteToken : RefreshToken :=
  { grant := "grant", client := "app", scopes := {"read", "write"}, binding := .dpop "key",
    issuedAt := 0, absoluteExpiresAt := seconds 3600, idleExpiresAt := none, revokedAt := none,
    supersededAt := none }

/-- A refresh. -/
def refreshOf (digest : String) (rotation : Rotation) (scope : Option String) : RefreshRequest :=
  { digest
    policy := { absoluteLifetime := seconds 3600, idleLifetime := none, bindToDpopKey := false,
                rotation }
    scope
    isPublic := false
    proofKey := some "key"
    certificate := none
    minting := .atApi none }

/-- Its input. -/
def inputFor (freshDigest : String) : Input :=
  { store := exampleStore, clock := seconds 1, freshDigest }

/-- A refresh for `read`, and then one that presents `second` and names no scope. -/
def twoRefreshes (rotation : Rotation) (second : String) : List Label :=
  [.other 0 (.createGrant readWriteGrant), .other 0 (.issueRefreshToken "first" readWriteToken),
    .refresh 0 (refreshOf "first" rotation (some "read")),
    .advance 0 (inputFor "second"), .advance 0 (inputFor "second"), .advance 0 (inputFor "second"),
    .advance 0 (inputFor "second"), .advance 0 (inputFor "second"),
    .refresh 1 (refreshOf second rotation none),
    .advance 1 (inputFor "third"), .advance 1 (inputFor "third"), .advance 1 (inputFor "third"),
    .advance 1 (inputFor "third"), .advance 1 (inputFor "third")]

/-- Without rotation the second refresh gets `write` back, which the first gave up. -/
theorem refresh_widens_again :
    ∃ s first last, (endpoint exampleUrl).Path State.init (twoRefreshes .none "first") s ∧
    s.requests 0 = .refreshed first "first" ∧ first.effective = {"read"} ∧
    s.requests 1 = .refreshed last "first" ∧ last.request.digest = "first" ∧
    last.token.scope = {"read", "write"} := by
  refine ⟨_, _, _, .cons ⟨Finset.notMem_empty "grant", rfl⟩ (by
    iterate 13 (constructor; exact ⟨rfl, rfl⟩)
    exact .nil _), by rfl, by rfl, by rfl, by rfl, by rfl⟩

theorem refreshes_narrow_twice :
    ∃ s first last, (endpoint exampleUrl).Path State.init
        (twoRefreshes (.migration (seconds 60)) "second") s ∧
      Refreshed s first ∧ Succeeds s first last ∧ last.1.token.scope ⊆ first.1.effective ∧
      SameCredential s.tables first.1.record last.1.record := by
  have hrun : ∃ s first last, (endpoint exampleUrl).Path State.init
        (twoRefreshes (.migration (seconds 60)) "second") s ∧
      s.requests 0 = .refreshed first "second" ∧ s.requests 1 = .refreshed last "third" ∧
      last.request.digest = "second" ∧ first.request.policy.rotates := by
    refine ⟨_, _, _, .cons ⟨Finset.notMem_empty "grant", rfl⟩ (by
      iterate 13 (constructor; exact ⟨rfl, rfl⟩)
      exact .nil _), by rfl, by rfl, by rfl, by rfl⟩
  obtain ⟨s, first, last, hp, hfst, hla, hpr, hrot⟩ := hrun
  have hrfd : Refreshed s (first, "second") := ⟨0, hfst⟩
  have hnx : Succeeds s (first, "second") (last, "third") :=
    ⟨⟨1, hla⟩, hpr, .inl hrot⟩
  obtain ⟨hsc, hsm, -⟩ := refreshes_narrow hp hrfd (.single hnx)
  exact ⟨s, (first, "second"), (last, "third"), hp, hrfd, hnx, hsc, hsm⟩

end AsteriusIdp.Token
