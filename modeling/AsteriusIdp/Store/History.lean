import AsteriusIdp.Lib.Transition
import AsteriusIdp.Issuance.AccessToken
import AsteriusIdp.Store.Tables

/-!
# Histories of a tenant

What can happen to the tables of a tenant, one operation after the other.  A new grant gets an
identifier that was never used, so an identifier stands for one grant through a whole history.

* `Op.lookup_apply`: what an operation can make of the row of a grant.
* `Known.step`: every grant has an identifier that was used.
-/

namespace AsteriusIdp.Store

open Transition Entries Tables

/-- What can happen to the tables of a tenant. -/
inductive Op where
  | createGrant (grant : Grant)
  | claimGrant (id : String)
  | deleteGrants (ids : Finset String)
  | amend (grant : Grant)
  | revokeGrant (id : String) (reason : RevocationReason) (named : Finset String)
  | freezeRoot (id : String) (scopes resources : Finset String) (details : List Json)
      (expiresAt : ℤ)
  | bindTask (id : String) (expiresAt : ℤ)
  | rotateSession (user old new : String)
  /-- The grant alone is stamped: the first statement of the answer to a replayed code, and a
  statement of every other writer that ends many grants at once. -/
  | stampRevoked (id : String) (reason : RevocationReason)
  /-- The refresh tokens alone are stamped: the second statement of that answer. -/
  | revokeRefreshTokensOf (id : String)
  | withdrawGrant (id : String)
  | issueRefreshToken (digest : String) (token : RefreshToken)
  | redeemRefreshToken (digest : String) (grace : ℤ) (nextIdle : Option ℤ)
  | supersede (superseded digest : String) (replacement : RefreshToken)
  | revokeRefreshToken (digest client : String)
  | revokeForSession (session : String)
  | withdrawClient (client : String)
  | deny (jti : String)
  | purgeDenylist (jtis : Finset String)
  | purgeCutoffs (clients grants : Finset String)
  | purgeCodes (digests : Finset String)
  | purgeRefreshTokens (digests : Finset String)
  /-- An access token is minted from a grant, with or without its `grant_id`. -/
  | mint (grant : String) (carried : Bool) (token : TokenClaims)

/-- What an operation makes of the tables. -/
def Op.apply (tables : Tables) (now : ℤ) : Op → Tables
  | .createGrant grant => tables.createGrant grant
  | .claimGrant id => tables.claimGrant id now
  | .deleteGrants ids => tables.deleteGrants ids
  | .amend grant => tables.amend grant now
  | .revokeGrant id reason named => tables.revokeGrant id reason named now
  | .freezeRoot id scopes resources details expiresAt =>
    tables.freezeRoot id scopes resources details expiresAt
  | .bindTask id expiresAt => tables.bindTask id expiresAt
  | .rotateSession user old new => tables.rotateSession user old new
  | .stampRevoked id reason => tables.stampRevoked id reason now
  | .revokeRefreshTokensOf id => tables.revokeRefreshTokensOf id now
  | .withdrawGrant id => tables.withdrawGrant id now
  | .issueRefreshToken digest token => tables.issueRefreshToken digest token
  | .redeemRefreshToken digest grace nextIdle =>
    tables.redeemRefreshToken digest now grace nextIdle
  | .supersede superseded digest replacement => tables.supersede superseded digest replacement now
  | .revokeRefreshToken digest client => tables.revokeRefreshToken digest client now
  | .revokeForSession session => tables.revokeForSession session now
  | .withdrawClient client => tables.withdrawClient client now
  | .deny jti => { tables with denylist := insert jti tables.denylist }
  | .purgeDenylist jtis => { tables with denylist := tables.denylist \ jtis }
  | .purgeCutoffs clients grants => tables.purgeCutoffs clients grants now
  | .purgeCodes digests => tables.purgeCodes digests now
  | .purgeRefreshTokens digests => tables.purgeRefreshTokens digests now
  | .mint _ _ _ => tables

/-- A token that the builder made for a grant by some instant, and that signing may have cut
short or tied to a task. -/
def MintedFrom (grant : String) (carried : Bool) (token : TokenClaims) (now : ℤ) : Prop :=
  ∃ (builder : AccessToken) (claims : TokenClaims), builder.grant.id = grant ∧
    builder.grantIdClaim = carried ∧ builder.issuedAt ≤ now ∧ builder.build = .ok claims ∧
    token.exp ≤ claims.exp ∧ token = { claims with exp := token.exp, task := token.task }

/-- The tables at some moment. -/
structure State where
  now : ℤ
  tables : Tables
  /-- The identifiers of grants that were ever used. -/
  ids : Finset String

/-- The grants an operation brings in. -/
def Op.newIds : Op → Finset String
  | .createGrant grant => {grant.id}
  | _ => ∅

/-- The grants an operation deletes. -/
def Op.deletedIds : Op → Finset String
  | .deleteGrants ids => ids
  | _ => ∅

/-- New grants get identifiers that were never used, and tokens come from the builder. -/
def Op.Allowed (ids : Finset String) (now : ℤ) : Op → Prop
  | .createGrant grant => grant.id ∉ ids
  | .mint grant carried token => MintedFrom grant carried token now
  | _ => True

/-- The state once an operation happened at some instant. -/
def State.after (s : State) (l : ℤ × Op) : State :=
  { now := l.1, tables := l.2.apply s.tables l.1, ids := s.ids ∪ l.2.newIds }

/-- Operations one after the other, at instants that do not decrease. -/
def history : System State (ℤ × Op) where
  step s l s' := s.now ≤ l.1 ∧ l.2.Allowed s.ids l.1 ∧ s' = s.after l

/-- A tenant without any record. -/
def State.init (now : ℤ) : State :=
  { now, ids := ∅
    tables := { grants := [], codes := [], refreshTokens := [], clientCutoffs := [],
                grantCutoffs := [], denylist := ∅, taskExpiries := [] } }

/-! ### What an operation makes of a grant -/

/-- The row of a grant at a later moment: nothing takes a revocation or its reason back, and the
grant keeps its identifier, its client and its parent. -/
structure Later (row row' : Grant) : Prop where
  id : row'.id = row.id
  revokedAt : ∀ t, row.revokedAt = some t → row'.revokedAt = some t
  reason : ∀ r, row.revocationReason = some r → row'.revocationReason = some r
  client : row'.client = row.client
  parent : row'.parent = row.parent

theorem Later.refl (row : Grant) : Later row row := ⟨rfl, fun _ h => h, fun _ h => h, rfl, rfl⟩

theorem Later.trans {row row' row'' : Grant} (h : Later row row') (h' : Later row' row'') :
    Later row row'' :=
  ⟨h'.id.trans h.id, fun t ht => h'.revokedAt t (h.revokedAt t ht),
    fun r hr => h'.reason r (h.reason r hr), h'.client.trans h.client, h'.parent.trans h.parent⟩

theorem coalesce_of_eq_some {α : Type} {stamp : Option α} {a : α} (h : stamp = some a)
    (value : α) : coalesce stamp value = some a := by
  rw [h]
  rfl

theorem coalesce_isSome {α : Type} (stamp : Option α) (value : α) :
    (coalesce stamp value).isSome := by
  cases stamp <;> rfl

/-- Every row of the second table is a row of the first at a later moment. -/
def Evolves (grants grants' : Entries String Grant) : Prop :=
  ∀ id row', grants'.lookup id = some row' → ∃ row, grants.lookup id = some row ∧ Later row row'

section

variable (grants : Entries String Grant)

theorem Evolves.refl : Evolves grants grants :=
  fun _ row h => ⟨row, h, .refl row⟩

theorem evolves_updateWhere (p : String → Grant → Bool) {f : Grant → Grant}
    (hf : ∀ row, Later row (f row)) : Evolves grants (grants.updateWhere p f) := by
  intro _ _ hrow
  rw [lookup_updateWhere, Option.map_eq_some_iff] at hrow
  obtain ⟨row, hrow, rfl⟩ := hrow
  refine ⟨row, hrow, ?_⟩
  split_ifs
  · exact hf row
  · exact .refl row

theorem evolves_filter (p : String → Bool) : Evolves grants (grants.filter fun e => p e.1) := by
  intro _ row hrow
  rw [lookup_filter] at hrow
  split_ifs at hrow
  exact ⟨row, hrow, .refl row⟩

end

section

variable (tables : Tables)

theorem evolves_stampRevoked (grant : String) (reason : RevocationReason)
    (now : ℤ) : Evolves tables.grants (tables.stampRevoked grant reason now).grants := by
  dsimp only [stampRevoked]
  refine evolves_updateWhere _ _ fun row => ⟨rfl, fun t h => ?_, fun r h => ?_, rfl, rfl⟩
  · exact coalesce_of_eq_some h now
  · exact coalesce_of_eq_some h reason

theorem evolves_claimGrant (grant : String) (now : ℤ) :
    Evolves tables.grants (tables.claimGrant grant now).grants := by
  dsimp only [claimGrant]
  exact evolves_updateWhere _ _ fun row => ⟨rfl, fun _ h => h, fun _ h => h, rfl, rfl⟩

theorem evolves_freezeRoot (grant : String) (scopes resources : Finset String)
    (details : List Json) (expiresAt : ℤ) :
    Evolves tables.grants (tables.freezeRoot grant scopes resources details expiresAt).grants := by
  dsimp only [freezeRoot]
  exact evolves_updateWhere _ _ fun row => ⟨rfl, fun _ h => h, fun _ h => h, rfl, rfl⟩

theorem evolves_rotateSession (user old new : String) :
    Evolves tables.grants (tables.rotateSession user old new).grants := by
  dsimp only [rotateSession]
  exact evolves_updateWhere _ _ fun row => ⟨rfl, fun _ h => h, fun _ h => h, rfl, rfl⟩

theorem evolves_amend (grant : Grant) (now : ℤ) :
    Evolves tables.grants (tables.amend grant now).grants := by
  unfold amend
  split_ifs
  · dsimp only [withdrawGrant]
    exact evolves_updateWhere _ _ fun row => ⟨rfl, fun _ h => h, fun _ h => h, rfl, rfl⟩
  · exact .refl _

theorem evolves_revokeGrant (grant : String) (reason : RevocationReason) (named : Finset String)
    (now : ℤ) : Evolves tables.grants (tables.revokeGrant grant reason named now).grants := by
  unfold revokeGrant
  split_ifs
  · exact evolves_stampRevoked _ grant reason now
  · exact .refl _

end

variable {id : String} {tables : Tables} {op : Op} {now : ℤ}

theorem lookup_createGrant (tables : Tables) (grant : Grant) (hne : id ≠ grant.id) :
    (tables.createGrant grant).grants.lookup id = tables.grants.lookup id := by
  unfold createGrant
  split_ifs
  · rfl
  · exact lookup_insert_of_ne _ _ hne

/-- What an operation makes of the grants that it does not bring in. -/
theorem Op.lookup_apply {row' : Grant} (h : (op.apply tables now).grants.lookup id = some row')
    (hnew : id ∉ op.newIds) : ∃ row, tables.grants.lookup id = some row ∧ Later row row' := by
  cases op with
  | createGrant grant =>
    have hne : id ≠ grant.id := by simpa [Op.newIds] using hnew
    exact ⟨row', lookup_createGrant tables grant hne ▸ h, .refl row'⟩
  | claimGrant grant => exact evolves_claimGrant tables grant now id row' h
  | freezeRoot grant scopes resources details expiresAt =>
    exact evolves_freezeRoot tables grant scopes resources details expiresAt id row' h
  | rotateSession user old new => exact evolves_rotateSession tables user old new id row' h
  | deleteGrants ids => exact evolves_filter tables.grants (fun k => decide (k ∉ ids)) id row' h
  | amend grant => exact evolves_amend tables grant now id row' h
  | revokeGrant grant reason named =>
    exact evolves_revokeGrant tables grant reason named now id row' h
  | stampRevoked grant reason => exact evolves_stampRevoked tables grant reason now id row' h
  | supersede | issueRefreshToken | revokeRefreshToken | bindTask =>
    exact ⟨row', by simpa [Op.apply] using h, .refl row'⟩
  | revokeRefreshTokensOf | withdrawGrant | redeemRefreshToken | revokeForSession
  | withdrawClient | deny | purgeDenylist | purgeCutoffs | purgeCodes | purgeRefreshTokens
  | mint => exact ⟨row', h, .refl row'⟩

/-- An operation leaves every grant there that it does not delete. -/
theorem Op.lookup_apply_isSome (h : (tables.grants.lookup id).isSome)
    (hdel : id ∉ op.deletedIds) : ((op.apply tables now).grants.lookup id).isSome := by
  cases op with
  | createGrant grant =>
    by_cases hne : id = grant.id
    · subst hne
      simp [Op.apply, Tables.createGrant, contains, h]
    · rwa [Op.apply, lookup_createGrant tables grant hne]
  | deleteGrants ids =>
    have hfl := lookup_filter (fun k => decide (k ∉ ids)) tables.grants id
    simp only [Op.apply, Tables.deleteGrants, hfl]
    rwa [if_pos (by simpa [Op.deletedIds] using hdel)]
  | claimGrant | freezeRoot | rotateSession | stampRevoked =>
    simpa [Op.apply, Tables.claimGrant, Tables.freezeRoot, Tables.rotateSession,
      Tables.stampRevoked] using h
  | amend =>
    simp only [Op.apply, Tables.amend]
    split_ifs
    · simpa [Tables.withdrawGrant, Tables.revokeRefreshTokensOf] using h
    · exact h
  | revokeGrant =>
    simp only [Op.apply, Tables.revokeGrant]
    split_ifs
    · simpa [Tables.stampRevoked, Tables.withdrawGrant, Tables.revokeRefreshTokensOf] using h
    · exact h
  | supersede | issueRefreshToken | revokeRefreshToken | bindTask => simpa [Op.apply] using h
  | revokeRefreshTokensOf | withdrawGrant | redeemRefreshToken | revokeForSession
  | withdrawClient | deny | purgeDenylist | purgeCutoffs | purgeCodes | purgeRefreshTokens
  | mint => exact h

/-- No operation writes a code; a purge may delete it. -/
theorem Op.lookup_codes_apply {digest : String} {row : AuthorizationCode}
    (h : (op.apply tables now).codes.lookup digest = some row) :
    tables.codes.lookup digest = some row := by
  cases op with
  | purgeCodes digests =>
    have hfl := lookup_filter (fun k => decide (¬(k ∈ digests ∧
      (tables.codes.lookup k).any (·.expiresAt ≤ now - seconds 86400)))) tables.codes digest
    simp only [Op.apply, Tables.purgeCodes, hfl] at h
    split_ifs at h
    exact h
  | createGrant | amend | revokeGrant | supersede | issueRefreshToken | bindTask =>
    simp only [Op.apply, Tables.createGrant, Tables.amend, Tables.revokeGrant, Tables.supersede,
      Tables.issueRefreshToken, Tables.bindTask] at h
    split_ifs at h <;> exact h
  | revokeRefreshToken =>
    simp only [Op.apply, Tables.revokeRefreshToken] at h
    split at h
    · exact h
    · split_ifs at h <;> exact h
  | _ => exact h

theorem not_mem_newIds {ids : Finset String} (h : op.Allowed ids now) (hid : id ∈ ids) :
    id ∉ op.newIds := by
  cases op with
  | createGrant =>
    rw [Op.newIds, Finset.mem_singleton]
    rintro rfl
    exact h hid
  | _ => exact Finset.notMem_empty id

/-- Every grant has an identifier that was used. -/
def Known (tables : Tables) (ids : Finset String) : Prop :=
  ∀ id, (tables.grants.lookup id).isSome → id ∈ ids

theorem Known.apply {ids : Finset String} (h : Known tables ids) (op : Op) (now : ℤ) :
    Known (op.apply tables now) (ids ∪ op.newIds) := by
  intro id hid
  by_cases hnew : id ∈ op.newIds
  · exact Finset.mem_union_right _ hnew
  · obtain ⟨_, hrow'⟩ := Option.isSome_iff_exists.1 hid
    obtain ⟨_, hrow, -⟩ := Op.lookup_apply hrow' hnew
    exact Finset.mem_union_left _ (h id (hrow ▸ rfl))

/-- Every grant is stored under its identifier. -/
def Keyed (tables : Tables) : Prop :=
  ∀ id row, tables.grants.lookup id = some row → row.id = id

theorem Keyed.evolves {tables' : Tables} (h : Keyed tables)
    (hev : Evolves tables.grants tables'.grants) : Keyed tables' := by
  intro id row' hrow'
  obtain ⟨row, hrow, hlat⟩ := hev id row' hrow'
  exact hlat.id.trans (h id row hrow)

theorem Keyed.apply (h : Keyed tables) (op : Op) (now : ℤ) : Keyed (op.apply tables now) := by
  intro id row' hrow'
  by_cases hnew : id ∈ op.newIds
  · cases op with
    | createGrant grant =>
      obtain rfl : id = grant.id := by simpa [Op.newIds] using hnew
      simp only [Op.apply, createGrant] at hrow'
      split_ifs at hrow'
      · exact h _ row' hrow'
      · rw [lookup_insert_self] at hrow'
        cases hrow'
        rfl
    | _ => cases hnew
  · obtain ⟨row, hrow, hlat⟩ := Op.lookup_apply hrow' hnew
    exact hlat.id.trans (h id row hrow)

theorem known_of_path {start : ℤ} {ls : List (ℤ × Op)} {s : State}
    (h : history.Path (State.init start) ls s) : Known s.tables s.ids := by
  refine h.invariant (I := fun s => Known s.tables s.ids) ?_ (fun _ hid => by cases hid)
  rintro _ l _ ⟨-, -, rfl⟩ hkn
  exact hkn.apply l.2 l.1

end AsteriusIdp.Store
