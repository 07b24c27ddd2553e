import AsteriusIdp.Keys.Kek

/-!
# Moving a tenant to another key-encryption key

`rewrapTenant` re-seals the stored secrets of one tenant that are under the key `old` with the key
`new`, in one transaction, and counts what is still under `old` or under neither key.  It calls
itself complete when both counts are zero.

The pass and its counts go over nine tables.  Three more tables hold sealed secrets: those of the
TOTP seeds, of the client secrets of upstream providers and of the PKCE verifiers of pending
upstream logins (`TenantRows.unswept`).

* `Column.forall₂_moved` : a sweep moves each secret of its table, binding and plaintext kept.
* `kekId_of_isComplete` : after a complete pass every secret of the nine tables is under `new`.
* `rewrapTenant_complete` : after a complete pass every secret of the tenant opens with `new` alone
  just when those of the three other tables were under `new` all along.
-/

namespace AsteriusIdp.Keys

open Fallible Framing

/-- Why a rewrap stops. -/
inductive RewrapError
  | invalid (field message : String)
  | storage (error : JoseError)
  | salt
  deriving DecidableEq, Repr

/-- A sealed secret as its store finds it: the binding it is opened under and its columns. -/
structure Secret where
  binding : KeyBinding
  stored : WrappedKey
  deriving DecidableEq, Repr

/-! ### One table -/

/-- The envelope columns of a table, null together, and the binding of a row. -/
structure Column (ρ : Type) where
  get : ρ → Option WrappedKey
  set : WrappedKey → ρ → ρ
  binding : String → ρ → Except RewrapError KeyBinding
  get_set : ∀ w row, get (set w row) = some w
  binding_set : ∀ tenant w row, binding tenant (set w row) = binding tenant row

/-- Open under `old` and seal under `new`, for the same binding. -/
def reseal (old new : Kek) (b : KeyBinding) (stored : WrappedKey) :
    Except RewrapError WrappedKey := do
  let wrapped ←
    (WrappedKey.fromParts stored.kekId stored.nonce stored.ciphertext).mapError .storage
  let plaintext ← (old.unwrap b wrapped).mapError .storage
  (new.wrap b plaintext).mapError .storage

namespace Column

variable {ρ : Type} (col : Column ρ)

/-- `kek_id = id` -/
def under (id : String) (row : ρ) : Bool := (col.get row).any (·.kekId = id)

/-- `kek_id is not null and kek_id <> old and kek_id <> new` -/
def underNeither (old new : Kek) (row : ρ) : Bool :=
  (col.get row).any fun w => w.kekId ≠ old.id ∧ w.kekId ≠ new.id

/-- Move one row to the new key. -/
def resealRow (tenant : String) (old new : Kek) (row : ρ) : Except RewrapError ρ :=
  match col.get row with
  | none => pure row
  | some stored =>
    if stored.kekId = old.id then do
      let b ← col.binding tenant row
      let resealed ← reseal old new b stored
      pure (col.set resealed row)
    else pure row

/-- Re-seal the rows under `old`; the rows and how many were moved. -/
def rewrap (tenant : String) (old new : Kek) (rows : List ρ) :
    Except RewrapError (List ρ × ℕ) := do
  let rows' ← rows.mapM (col.resealRow tenant old new)
  pure (rows', rows.countP (col.under old.id))

/-- The secret of a row, if the row has one and it can be bound. -/
def secret (tenant : String) (row : ρ) : List Secret :=
  match col.get row, col.binding tenant row with
  | some stored, .ok b => [⟨b, stored⟩]
  | _, _ => []

end Column

/-! ### The tables -/

/-- A signing key. -/
structure SigningKeyRow where
  kid : String
  alg : String
  purpose : String
  /-- Null once the key is purged. -/
  privateKey : Option WrappedKey
  deriving DecidableEq, Repr

/-- Its private key. -/
def signingKeyColumn : Column SigningKeyRow where
  get row := row.privateKey
  set w row := { row with privateKey := some w }
  binding tenant row := do
    let purpose ← okOr (KeyPurpose.parse row.purpose) (.invalid "signing_keys.purpose"
      ("the row names a key purpose this build does not know, so its ciphertext cannot be bound "
        ++ "back to it"))
    let algorithm ← okOr (SigningAlgorithm.parse row.alg) (.invalid "signing_keys.alg"
      ("the row names an algorithm this build does not know, so its ciphertext cannot be bound "
        ++ "back to it"))
    pure (.new tenant row.kid purpose algorithm)
  get_set _ _ := rfl
  binding_set _ _ _ := rfl

/-- A pairwise salt. -/
structure SaltRow where
  stored : WrappedKey
  createdAt : ℤ
  deriving DecidableEq, Repr

/-- A row with a key of its own and one sealed secret. -/
structure SealedRow (κ : Type) where
  key : κ
  stored : WrappedKey
  deriving DecidableEq, Repr

/-- A row that may have a sealed secret. -/
structure NullableRow (κ : Type) where
  key : κ
  stored : Option WrappedKey
  deriving DecidableEq, Repr

/-- A secret bound to its kind and to the text `row` gives for the row's key. -/
def sealedColumn {κ : Type} (kind : RowSecret) (row : κ → String) : Column (SealedRow κ) where
  get r := some r.stored
  set w r := { r with stored := w }
  binding tenant r := .ok (.rowSecret tenant kind (row r.key))
  get_set _ _ := rfl
  binding_set _ _ _ := rfl

/-- A secret that may be absent. -/
def nullableColumn {κ : Type} (kind : RowSecret) (row : κ → String) : Column (NullableRow κ) where
  get r := r.stored
  set w r := { r with stored := some w }
  binding tenant r := .ok (.rowSecret tenant kind (row r.key))
  get_set _ _ := rfl
  binding_set _ _ _ := rfl

/-- A user's account at a claims provider. -/
structure ProviderAccount where
  user : String
  issuer : String
  deriving DecidableEq, Repr

/-- As it is bound. -/
def ProviderAccount.row (account : ProviderAccount) : String :=
  account.user ++ ":" ++ account.issuer

/-- A claims provider connection. -/
structure ConnectionRow where
  account : ProviderAccount
  access : WrappedKey
  refresh : Option WrappedKey
  deriving DecidableEq, Repr

/-- Its access token. -/
def accessColumn : Column ConnectionRow where
  get row := some row.access
  set w row := { row with access := w }
  binding tenant row := .ok (.rowSecret tenant .claimsProviderAccessToken row.account.row)
  get_set _ _ := rfl
  binding_set _ _ _ := rfl

/-- Its refresh token. -/
def refreshColumn : Column ConnectionRow where
  get row := row.refresh
  set w row := { row with refresh := some w }
  binding tenant row := .ok (.rowSecret tenant .claimsProviderRefreshToken row.account.row)
  get_set _ _ := rfl
  binding_set _ _ _ := rfl

/-- Push authorization. -/
def ssfStreamColumn : Column (NullableRow String) := nullableColumn .ssfPushAuthorization id

/-- Ping token. -/
def cibaRequestColumn : Column (NullableRow Bytes) := nullableColumn .cibaPing hexEncode

/-- Federation key. -/
def federationKeyColumn : Column (SealedRow String) := sealedColumn .federationSigningKey id

/-- SAML key. -/
def samlKeyColumn : Column (NullableRow Bytes) := nullableColumn .samlIdpSigningKey hexEncode

/-- UserInfo. -/
def claimSourceColumn : Column (NullableRow ProviderAccount) :=
  nullableColumn .claimsProviderUserInfo ProviderAccount.row

/-- PKCE verifier. -/
def oauthPendingColumn : Column (SealedRow String) := sealedColumn .claimsProviderPkce id

/-- TOTP seed. -/
def totpColumn : Column (SealedRow String) := sealedColumn .totpSeed id

/-- Client secret. -/
def oidcProviderColumn : Column (SealedRow String) := sealedColumn .oidcProviderClientSecret id

/-- PKCE verifier. -/
def oidcUpstreamColumn : Column (SealedRow String) := sealedColumn .oidcUpstreamPkce id

/-- The rows of one tenant that can hold sealed secrets. -/
structure TenantRows where
  signingKeys : List SigningKeyRow := []
  tenantPairwiseSalt : Option SaltRow := none
  ssfStreams : List (NullableRow String) := []
  cibaRequests : List (NullableRow Bytes) := []
  federationSigningKeys : List (SealedRow String) := []
  samlIdpSigningKeys : List (NullableRow Bytes) := []
  aggregatedClaimSources : List (NullableRow ProviderAccount) := []
  claimsProviderOauthPending : List (SealedRow String) := []
  claimsProviderOauthConnections : List ConnectionRow := []
  totpCredentials : List (SealedRow String) := []
  oidcIdentityProviders : List (SealedRow String) := []
  oidcUpstreamPending : List (SealedRow String) := []
  deriving DecidableEq, Repr

/-- The salt. -/
def SaltRow.secret (tenant : String) (row : SaltRow) : Secret :=
  ⟨.tenantSecret tenant .pairwiseSalt, row.stored⟩

/-- Both tokens. -/
def ConnectionRow.secrets (tenant : String) (row : ConnectionRow) : List Secret :=
  accessColumn.secret tenant row ++ refreshColumn.secret tenant row

namespace TenantRows

/-- The secrets in the tables a pass goes over. -/
def swept (db : TenantRows) (tenant : String) : List Secret :=
  db.signingKeys.flatMap (signingKeyColumn.secret tenant)
    ++ db.tenantPairwiseSalt.toList.map (SaltRow.secret tenant)
    ++ db.ssfStreams.flatMap (ssfStreamColumn.secret tenant)
    ++ db.cibaRequests.flatMap (cibaRequestColumn.secret tenant)
    ++ db.federationSigningKeys.flatMap (federationKeyColumn.secret tenant)
    ++ db.samlIdpSigningKeys.flatMap (samlKeyColumn.secret tenant)
    ++ db.aggregatedClaimSources.flatMap (claimSourceColumn.secret tenant)
    ++ db.claimsProviderOauthPending.flatMap (oauthPendingColumn.secret tenant)
    ++ db.claimsProviderOauthConnections.flatMap (ConnectionRow.secrets tenant)

/-- The secrets in the other tables. -/
def unswept (db : TenantRows) (tenant : String) : List Secret :=
  db.totpCredentials.flatMap (totpColumn.secret tenant)
    ++ db.oidcIdentityProviders.flatMap (oidcProviderColumn.secret tenant)
    ++ db.oidcUpstreamPending.flatMap (oidcUpstreamColumn.secret tenant)

/-- Every secret of the tenant that a store seals. -/
def secrets (db : TenantRows) (tenant : String) : List Secret :=
  db.swept tenant ++ db.unswept tenant

end TenantRows

/-! ### The pass -/

/-- Bytes of a salt. -/
def saltLen : ℕ := 32

/-- A salt of the right length. -/
def pairwiseSaltFromStorage (material : Bytes) : Except RewrapError Bytes :=
  if material.length = saltLen then .ok material else .error .salt

/-- Read the salt back and compare it with the one that was opened. -/
def proveTheSaltSurvived (tenant : String) (new : Kek) (stored : WrappedKey) (expected : Bytes) :
    Except RewrapError Unit := do
  let opened ← (new.openStored (.tenantSecret tenant .pairwiseSalt) stored).mapError .storage
  let salt ← pairwiseSaltFromStorage opened
  refuseIf (salt ≠ expected) (.invalid "pairwise_salt"
    ("the re-sealed salt did not read back as the one that was stored; the tenant has been left "
      ++ "on its previous key-encryption key"))

/-- The salt's row is deleted and inserted again, with its time of creation. -/
def rewrapSaltRow (tenant : String) (old new : Kek) (row : SaltRow) :
    Except RewrapError SaltRow := do
  let b := KeyBinding.tenantSecret tenant .pairwiseSalt
  let wrapped ← (WrappedKey.fromParts row.stored.kekId row.stored.nonce
    row.stored.ciphertext).mapError .storage
  let opened ← (old.unwrap b wrapped).mapError .storage
  let salt ← pairwiseSaltFromStorage opened
  let resealed ← (new.wrap b salt).mapError .storage
  proveTheSaltSurvived tenant new resealed salt
  pure ⟨resealed, row.createdAt⟩

/-- Move the salt. -/
def rewrapPairwiseSalt (tenant : String) (old new : Kek) (row : Option SaltRow) :
    Except RewrapError (Option SaltRow × Bool) :=
  match row with
  | none => pure (none, false)
  | some row =>
    if row.stored.kekId = old.id then do
      let moved ← rewrapSaltRow tenant old new row
      pure (some moved, true)
    else pure (some row, false)

/-- The access token of a connection, then its refresh token. -/
def resealConnection (tenant : String) (old new : Kek) (row : ConnectionRow) :
    Except RewrapError ConnectionRow := do
  let row ← accessColumn.resealRow tenant old new row
  refreshColumn.resealRow tenant old new row

/-- Move the tokens. -/
def rewrapClaimsProviderTokens (tenant : String) (old new : Kek) (rows : List ConnectionRow) :
    Except RewrapError (List ConnectionRow × ℕ) := do
  let rows' ← rows.mapM (resealConnection tenant old new)
  pure (rows', rows.countP (accessColumn.under old.id) + rows.countP (refreshColumn.under old.id))

/-- How many rows of the nine tables have a secret under `id`. -/
def countUnder (db : TenantRows) (id : String) : ℕ :=
  db.signingKeys.countP (signingKeyColumn.under id)
    + db.tenantPairwiseSalt.toList.countP (fun row => row.stored.kekId = id)
    + db.ssfStreams.countP (ssfStreamColumn.under id)
    + db.cibaRequests.countP (cibaRequestColumn.under id)
    + db.federationSigningKeys.countP (federationKeyColumn.under id)
    + db.samlIdpSigningKeys.countP (samlKeyColumn.under id)
    + db.aggregatedClaimSources.countP (claimSourceColumn.under id)
    + db.claimsProviderOauthPending.countP (oauthPendingColumn.under id)
    + db.claimsProviderOauthConnections.countP
        (fun row => accessColumn.under id row || refreshColumn.under id row)

/-- How many rows of the nine tables have a secret under neither key. -/
def countStranded (db : TenantRows) (old new : Kek) : ℕ :=
  db.signingKeys.countP (signingKeyColumn.underNeither old new)
    + db.tenantPairwiseSalt.toList.countP
        (fun row => row.stored.kekId ≠ old.id ∧ row.stored.kekId ≠ new.id)
    + db.ssfStreams.countP (ssfStreamColumn.underNeither old new)
    + db.cibaRequests.countP (cibaRequestColumn.underNeither old new)
    + db.federationSigningKeys.countP (federationKeyColumn.underNeither old new)
    + db.samlIdpSigningKeys.countP (samlKeyColumn.underNeither old new)
    + db.aggregatedClaimSources.countP (claimSourceColumn.underNeither old new)
    + db.claimsProviderOauthPending.countP (oauthPendingColumn.underNeither old new)
    + db.claimsProviderOauthConnections.countP
        (fun row => accessColumn.underNeither old new row || refreshColumn.underNeither old new row)

/-- What one pass moved. -/
structure Rewrap where
  signingKeys : ℕ
  pairwiseSalt : Bool
  ssfPushCredentials : ℕ
  cibaPingEnvelopes : ℕ
  federationKeys : ℕ
  samlIdpKeys : ℕ
  claimsProviderSources : ℕ
  claimsProviderPkce : ℕ
  claimsProviderTokens : ℕ
  leftBehind : ℕ
  stranded : ℕ
  deriving DecidableEq, Repr

/-- Nothing is left. -/
def Rewrap.isComplete (r : Rewrap) : Bool := r.leftBehind = 0 && r.stranded = 0

/-- How a rewrap ended. -/
inductive RewrapOutcome
  | busy
  | rewrapped (rewrap : Rewrap)
  deriving DecidableEq, Repr

/-- The keys differ. -/
def distinct (old new : Kek) : Except RewrapError Unit :=
  refuseIf (old.id = new.id) (.invalid "kek"
    ("the new key-encryption key is the one already in use; a rotation that reports success "
      ++ "without moving anything is how the old key gets destroyed while it is still the only key"))

/-- The statements of the pass, in the order they run. -/
def rewrapRows (tenant : String) (old new : Kek) (db : TenantRows) :
    Except RewrapError (Rewrap × TenantRows) := do
  let (signingKeys, nSigning) ← signingKeyColumn.rewrap tenant old new db.signingKeys
  let (salt, saltMoved) ← rewrapPairwiseSalt tenant old new db.tenantPairwiseSalt
  let (streams, nStreams) ← ssfStreamColumn.rewrap tenant old new db.ssfStreams
  let (ciba, nCiba) ← cibaRequestColumn.rewrap tenant old new db.cibaRequests
  let (federation, nFederation) ←
    federationKeyColumn.rewrap tenant old new db.federationSigningKeys
  let (saml, nSaml) ← samlKeyColumn.rewrap tenant old new db.samlIdpSigningKeys
  let (sources, nSources) ← claimSourceColumn.rewrap tenant old new db.aggregatedClaimSources
  let (pending, nPending) ← oauthPendingColumn.rewrap tenant old new db.claimsProviderOauthPending
  let (connections, nTokens) ←
    rewrapClaimsProviderTokens tenant old new db.claimsProviderOauthConnections
  let db' := { db with
    signingKeys := signingKeys, tenantPairwiseSalt := salt, ssfStreams := streams,
    cibaRequests := ciba, federationSigningKeys := federation, samlIdpSigningKeys := saml,
    aggregatedClaimSources := sources, claimsProviderOauthPending := pending,
    claimsProviderOauthConnections := connections }
  pure (⟨nSigning, saltMoved, nStreams, nCiba, nFederation, nSaml, nSources, nPending, nTokens,
    countUnder db' old.id, countStranded db' old new⟩, db')

/-- One pass in its transaction: the result and the rows afterwards.  `acquired` is the answer of
`pg_try_advisory_xact_lock`; a pass that ends in an error is rolled back. -/
def rewrapTenant (tenant : String) (old new : Kek) (acquired : Bool) (db : TenantRows) :
    Except RewrapError RewrapOutcome × TenantRows :=
  match distinct old new with
  | .error e => (.error e, db)
  | .ok () =>
    if acquired then
      match rewrapRows tenant old new db with
      | .error e => (.error e, db)
      | .ok (rewrap, db') => (.ok (.rewrapped rewrap), db')
    else (.ok .busy, db)

/-! ### What a sweep does to the secrets -/

/-- The secret `s` has become `s'`: re-sealed if it was under `old`, untouched otherwise. -/
def Moved (old new : Kek) (s s' : Secret) : Prop :=
  s'.binding = s.binding ∧
    if s.stored.kekId = old.id then reseal old new s.binding s.stored = .ok s'.stored
    else s'.stored = s.stored

theorem Moved.same {old new : Kek} {s : Secret} (h : s.stored.kekId ≠ old.id) :
    Moved old new s s := by
  simp [Moved, h]

section Sweep

variable {ρ : Type} {col : Column ρ} {tenant : String} {old new : Kek} {row row' : ρ}
  {rows rows' : List ρ}

theorem Column.resealRow_ok (h : col.resealRow tenant old new row = .ok row') :
    (row' = row ∧ ∀ stored, col.get row = some stored → stored.kekId ≠ old.id) ∨
      ∃ stored b resealed, col.get row = some stored ∧ stored.kekId = old.id ∧
      col.binding tenant row = .ok b ∧ reseal old new b stored = .ok resealed ∧
      row' = col.set resealed row := by
  unfold resealRow at h
  cases hget : col.get row with
  | none =>
    simp only [hget, pure_ok] at h
    exact .inl ⟨h.symm, by simp⟩
  | some stored =>
    simp only [hget] at h
    split_ifs at h with hold
    · simp only [bind_ok, pure_ok] at h
      obtain ⟨b, hb, resealed, hres, rfl⟩ := h
      exact .inr ⟨stored, b, resealed, rfl, hold, hb, hres, rfl⟩
    · rw [pure_ok] at h
      exact .inl ⟨h.symm, by simpa using hold⟩

/-- A column that keeps what another column reads keeps its secret. -/
theorem Column.secret_congr (hget : col.get row' = col.get row)
    (hbi : col.binding tenant row' = col.binding tenant row) :
    col.secret tenant row' = col.secret tenant row := by
  rw [secret, secret, hget, hbi]

theorem Column.moved_of_resealRow (h : col.resealRow tenant old new row = .ok row') :
    List.Forall₂ (Moved old new) (col.secret tenant row) (col.secret tenant row') := by
  rcases Column.resealRow_ok h with
    ⟨rfl, hoth⟩ | ⟨stored, b, resealed, hget, hold, hb, hres, rfl⟩
  · unfold Column.secret
    split
    · rename_i stored b hget hb
      exact .cons (Moved.same (hoth stored hget)) .nil
    · exact .nil
  · simp only [Column.secret, col.get_set, col.binding_set, hget, hb]
    exact .cons ⟨rfl, by simpa [hold] using hres⟩ .nil

/-- **A sweep moves the secrets of its table**, each under its own binding. -/
theorem Column.forall₂_moved {n : ℕ} (h : col.rewrap tenant old new rows = .ok (rows', n)) :
    List.Forall₂ (Moved old new) (rows.flatMap (col.secret tenant))
      (rows'.flatMap (col.secret tenant)) := by
  simp only [rewrap, bind_ok, pure_ok] at h
  obtain ⟨_, hrs, rfl, -⟩ := h
  refine List.rel_flatMap ((mapM_ok.1 hrs).imp fun _ _ => id) ?_
  intro _ _ hrow
  exact Column.moved_of_resealRow hrow

theorem forall₂_moved_salt {salt salt' : Option SaltRow} {moved : Bool}
    (h : rewrapPairwiseSalt tenant old new salt = .ok (salt', moved)) :
    List.Forall₂ (Moved old new) (salt.toList.map (SaltRow.secret tenant))
      (salt'.toList.map (SaltRow.secret tenant)) := by
  cases salt with
  | none =>
    obtain ⟨rfl, -⟩ := h
    exact .nil
  | some =>
    simp only [rewrapPairwiseSalt] at h
    split_ifs at h with hold
    · simp only [rewrapSaltRow, pairwiseSaltFromStorage, bind_ok, pure_ok,
        mapError_ok, Prod.mk.injEq] at h
      obtain ⟨_, ⟨wrapped, hpar, opened, hopen, salt, hsa, _, hres, -, -, rfl⟩, rfl, -⟩ := h
      have hsm : opened = salt := by
        split_ifs at hsa
        exact Except.ok.inj hsa
      subst hsm
      refine .cons ⟨rfl, ?_⟩ .nil
      simp only [SaltRow.secret, hold, reseal, bind_ok, mapError_ok]
      exact ⟨wrapped, hold ▸ hpar, opened, hopen, hres⟩
    · obtain ⟨rfl, -⟩ := h
      exact .cons (Moved.same hold) .nil

theorem moved_of_resealConnection {row row' : ConnectionRow}
    (h : resealConnection tenant old new row = .ok row') :
    List.Forall₂ (Moved old new) (row.secrets tenant) (row'.secrets tenant) := by
  simp only [resealConnection, bind_ok] at h
  obtain ⟨row₁, hacc, hrfr⟩ := h
  -- Neither column is read by the other: the first step leaves the refresh token as it was, the
  -- second one the access token.
  have hrfr₁ : refreshColumn.secret tenant row₁ = refreshColumn.secret tenant row := by
    rcases Column.resealRow_ok hacc with ⟨rfl, -⟩ | ⟨_, _, _, -, -, -, -, rfl⟩
    · rfl
    · exact Column.secret_congr rfl rfl
  have hacc₁ : accessColumn.secret tenant row' = accessColumn.secret tenant row₁ := by
    rcases Column.resealRow_ok hrfr with ⟨rfl, -⟩ | ⟨_, _, _, -, -, -, -, rfl⟩
    · rfl
    · exact Column.secret_congr rfl rfl
  have hmv₁ := Column.moved_of_resealRow hacc
  have hmv₂ := Column.moved_of_resealRow hrfr
  rw [hrfr₁] at hmv₂
  rw [ConnectionRow.secrets, ConnectionRow.secrets, hacc₁]
  exact List.rel_append hmv₁ hmv₂

theorem forall₂_moved_connections {rows rows' : List ConnectionRow} {n : ℕ}
    (h : rewrapClaimsProviderTokens tenant old new rows = .ok (rows', n)) :
    List.Forall₂ (Moved old new) (rows.flatMap (ConnectionRow.secrets tenant))
      (rows'.flatMap (ConnectionRow.secrets tenant)) := by
  simp only [rewrapClaimsProviderTokens, bind_ok, pure_ok] at h
  obtain ⟨_, hrs, rfl, -⟩ := h
  refine List.rel_flatMap ((mapM_ok.1 hrs).imp fun _ _ => id) ?_
  intro _ _ hrow
  exact moved_of_resealConnection hrow

end Sweep

/-! ### What a pass does to the secrets -/

section Pass

variable {tenant : String} {old new : Kek} {db db' : TenantRows} {r : Rewrap}

/-- **A pass moves the secrets of the nine tables and leaves the others alone**, and its two
counts are those of the rows it leaves behind. -/
theorem rewrapRows_spec (h : rewrapRows tenant old new db = .ok (r, db')) :
    List.Forall₂ (Moved old new) (db.swept tenant) (db'.swept tenant) ∧
    db'.unswept tenant = db.unswept tenant ∧
    r.leftBehind = countUnder db' old.id ∧ r.stranded = countStranded db' old new := by
  simp only [rewrapRows, bind_ok, pure_ok, Prod.exists] at h
  obtain ⟨_, _, hsgn, _, _, hsa, _, _, hstr, _, _, hci, _, _, hfed, _, _, hsaml,
    _, _, hso, _, _, hpd, _, _, hts, rfl, rfl⟩ := h
  refine ⟨?_, rfl, rfl, rfl⟩
  exact List.rel_append (List.rel_append (List.rel_append (List.rel_append (List.rel_append
    (List.rel_append (List.rel_append (List.rel_append (Column.forall₂_moved hsgn)
      (forall₂_moved_salt hsa)) (Column.forall₂_moved hstr)) (Column.forall₂_moved hci))
      (Column.forall₂_moved hfed)) (Column.forall₂_moved hsaml))
      (Column.forall₂_moved hso)) (Column.forall₂_moved hpd))
    (forall₂_moved_connections hts)

/-- A row that neither count sees has its secret, if any, under `new`. -/
theorem Column.kekId_of_secret {ρ : Type} {col : Column ρ} {row : ρ}
    (hun : ¬col.under old.id row) (hne : ¬col.underNeither old new row) :
    ∀ s ∈ col.secret tenant row, s.stored.kekId = new.id := by
  intro s hs
  unfold Column.secret at hs
  split at hs
  · rename_i stored b hget hb
    obtain rfl := List.mem_singleton.1 hs
    simp only [Column.under, Column.underNeither, hget, Option.any_some, decide_eq_true_eq,
      not_and, not_not] at hun hne
    exact hne hun
  · simp at hs

theorem Column.kekId_of_countP {ρ : Type} {col : Column ρ} {rows : List ρ}
    (hun : rows.countP (col.under old.id) = 0) (hne : rows.countP (col.underNeither old new) = 0) :
    ∀ s ∈ rows.flatMap (col.secret tenant), s.stored.kekId = new.id := by
  intro s hs
  obtain ⟨row, hrow, hs⟩ := List.mem_flatMap.1 hs
  exact Column.kekId_of_secret (List.countP_eq_zero.1 hun row hrow)
    (List.countP_eq_zero.1 hne row hrow) s hs

/-- **The two counts together**: when both are zero, every secret of the nine tables is under
`new`. -/
theorem kekId_of_counts (hun : countUnder db old.id = 0) (hstr : countStranded db old new = 0) :
    ∀ s ∈ db.swept tenant, s.stored.kekId = new.id := by
  simp only [countUnder, countStranded, Nat.add_eq_zero_iff] at hun hstr
  obtain ⟨⟨⟨⟨⟨⟨⟨⟨hu₁, hu₂⟩, hu₃⟩, hu₄⟩, hu₅⟩, hu₆⟩, hu₇⟩, hu₈⟩, hu₉⟩ := hun
  obtain ⟨⟨⟨⟨⟨⟨⟨⟨hs₁, hs₂⟩, hs₃⟩, hs₄⟩, hs₅⟩, hs₆⟩, hs₇⟩, hs₈⟩, hs₉⟩ := hstr
  intro s hs
  simp only [TenantRows.swept, List.mem_append] at hs
  rcases hs with (((((((hs | hs) | hs) | hs) | hs) | hs) | hs) | hs) | hs
  · exact Column.kekId_of_countP hu₁ hs₁ s hs
  · obtain ⟨row, hrow, rfl⟩ := List.mem_map.1 hs
    have hno := List.countP_eq_zero.1 hu₂ row hrow
    have hnotT := List.countP_eq_zero.1 hs₂ row hrow
    simp only [decide_eq_true_eq, not_and, not_not] at hno hnotT
    exact hnotT hno
  · exact Column.kekId_of_countP hu₃ hs₃ s hs
  · exact Column.kekId_of_countP hu₄ hs₄ s hs
  · exact Column.kekId_of_countP hu₅ hs₅ s hs
  · exact Column.kekId_of_countP hu₆ hs₆ s hs
  · exact Column.kekId_of_countP hu₇ hs₇ s hs
  · exact Column.kekId_of_countP hu₈ hs₈ s hs
  · obtain ⟨row, hrow, hs⟩ := List.mem_flatMap.1 hs
    have hno := List.countP_eq_zero.1 hu₉ row hrow
    have hnotT := List.countP_eq_zero.1 hs₉ row hrow
    simp only [Bool.or_eq_true, not_or] at hno hnotT
    rcases List.mem_append.1 hs with hs | hs
    · exact Column.kekId_of_secret hno.1 hnotT.1 s hs
    · exact Column.kekId_of_secret hno.2 hnotT.2 s hs

theorem rewrapTenant_eq_rewrapped {acquired : Bool}
    (h : rewrapTenant tenant old new acquired db = (.ok (.rewrapped r), db')) :
    rewrapRows tenant old new db = .ok (r, db') := by
  unfold rewrapTenant at h
  split at h
  · simp at h
  · split_ifs at h
    · split at h
      · simp at h
      · rename_i rewrap rows hrs
        obtain ⟨rfl, rfl⟩ := h
        exact hrs
    · simp at h

/-- An attempt that did not commit leaves the rows as they were: it was refused, found the tenant
busy, or was rolled back. -/
theorem rewrapTenant_uncommitted {acquired : Bool}
    (h : ∀ r, (rewrapTenant tenant old new acquired db).1 ≠ .ok (.rewrapped r)) :
    (rewrapTenant tenant old new acquired db).2 = db := by
  unfold rewrapTenant at h ⊢
  cases hdi : distinct old new with
  | error => rfl
  | ok =>
    cases acquired with
    | false => rfl
    | true =>
      cases hrs : rewrapRows tenant old new db with
      | error => rfl
      | ok => simp [hdi, hrs] at h

end Pass

/-! ### What the secrets open to -/

/-- The key-encryption keys of a deployment, one for each identifier. -/
structure Keyring where
  key : String → Option Kek
  id_eq : ∀ {i k}, key i = some k → k.id = i
  lawful : ∀ {i k}, key i = some k → k.Lawful

namespace Keyring

/-- The ring has the key. -/
def Has (ring : Keyring) (kek : Kek) : Prop := ring.key kek.id = some kek

/-- The plaintext of a stored secret: what the key it names opens it to. -/
def plaintext (ring : Keyring) (s : Secret) : Option Bytes :=
  (ring.key s.stored.kekId).bind fun kek => (kek.openStored s.binding s.stored).toOption

variable {ring : Keyring} {kek : Kek} {s : Secret} {p : Bytes}

theorem plaintext_of_kekId (hkek : ring.Has kek) (hs : s.stored.kekId = kek.id) :
    ring.plaintext s = some p ↔ kek.openStored s.binding s.stored = .ok p := by
  rw [plaintext, hs, show ring.key kek.id = some kek from hkek, Option.bind_some]
  cases kek.openStored s.binding s.stored <;> simp [Except.toOption]

end Keyring

/-- `s'` can be opened with `kek` alone, under the binding of `s` and to its plaintext. -/
def Survives (ring : Keyring) (kek : Kek) (s s' : Secret) : Prop :=
  s'.binding = s.binding ∧
    ∀ p, ring.plaintext s = some p → kek.openStored s'.binding s'.stored = .ok p

section Survival

variable {ring : Keyring} {tenant : String} {old new : Kek} {s s' : Secret} {db db' : TenantRows}
  {r : Rewrap}

theorem reseal_ok {b : KeyBinding} {w w' : WrappedKey} :
    reseal old new b w = .ok w' ↔ ∃ p, old.openStored b w = .ok p ∧ new.wrap b p = .ok w' := by
  simp only [reseal, Kek.openStored, bind_ok, mapError_ok]
  grind

/-- **One row**: a secret that was moved and is now under `new` survives. -/
theorem Moved.survives (hold : ring.Has old) (hnew : ring.Has new) (h : Moved old new s s')
    (hkek : s'.stored.kekId = new.id) : Survives ring new s s' := by
  obtain ⟨hbi, hsto⟩ := h
  refine ⟨hbi, fun p hp => ?_⟩
  rw [hbi]
  split_ifs at hsto with hun
  · obtain ⟨_, hopen, hwr⟩ := reseal_ok.1 hsto
    rw [Keyring.plaintext_of_kekId hold hun, hopen, Except.ok.injEq] at hp
    subst hp
    exact (ring.lawful hnew).openStored_wrap hwr ((ring.lawful hold).ne_nil_of_openStored hopen)
  · rw [hsto] at hkek ⊢
    exact (Keyring.plaintext_of_kekId hnew hkek).1 hp

/-- A secret that nobody moved survives just when it was under `new`. -/
theorem survives_self_iff (hnew : ring.Has new) {p : Bytes} (hp : ring.plaintext s = some p) :
    Survives ring new s s ↔ s.stored.kekId = new.id := by
  constructor
  · rintro ⟨-, hopen⟩
    exact (ring.lawful hnew).kekId_of_openStored (hopen p hp)
  · intro hkek
    exact ⟨rfl, fun q hq => (Keyring.plaintext_of_kekId hnew hkek).1 hq⟩

theorem forall₂_append_iff {α β : Type*} {R : α → β → Prop} {l₁ l₂ : List α} {k₁ k₂ : List β}
    (h : List.Forall₂ R l₁ k₁) : List.Forall₂ R (l₁ ++ l₂) (k₁ ++ k₂) ↔ List.Forall₂ R l₂ k₂ := by
  induction h with
  | nil => rfl
  | cons hhd _ ih => simpa [hhd] using ih

/-- **Every secret of the nine tables survives a complete pass.** -/
theorem swept_survive (hold : ring.Has old) (hnew : ring.Has new)
    (hrun : rewrapRows tenant old new db = .ok (r, db')) (hcpl : r.isComplete) :
    List.Forall₂ (Survives ring new) (db.swept tenant) (db'.swept tenant) := by
  obtain ⟨hmv, -, hle, hstr⟩ := rewrapRows_spec hrun
  simp only [Rewrap.isComplete, Bool.and_eq_true, decide_eq_true_eq] at hcpl
  have hkek : ∀ s ∈ db'.swept tenant, s.stored.kekId = new.id :=
    kekId_of_counts (hle ▸ hcpl.1) (hstr ▸ hcpl.2)
  refine List.forall₂_iff_zip.2 ⟨hmv.length_eq, fun {s s'} hmem => ?_⟩
  have hpa := (List.forall₂_iff_zip.1 hmv).2 hmem
  exact hpa.survives hold hnew (hkek s' (List.of_mem_zip hmem).2)

/-- **A complete pass loses no secret just when the three tables it does not go over were under
the new key before it.**  An attempt that did not commit can be run again to the same result. -/
theorem rewrapTenant_complete (hold : ring.Has old) (hnew : ring.Has new)
    (hsealed : ∀ s ∈ db.secrets tenant, ∃ p, ring.plaintext s = some p)
    (hrun : rewrapTenant tenant old new true db = (.ok (.rewrapped r), db'))
    (hcomplete : r.isComplete) :
    (List.Forall₂ (Survives ring new) (db.secrets tenant) (db'.secrets tenant) ↔
        ∀ s ∈ db.unswept tenant, s.stored.kekId = new.id) ∧ ∀ (old' new' : Kek) (acquired : Bool),
        (∀ r', (rewrapTenant tenant old' new' acquired db).1 ≠ .ok (.rewrapped r')) →
          rewrapTenant tenant old new true (rewrapTenant tenant old' new' acquired db).2 =
            (.ok (.rewrapped r), db') := by
  constructor
  · have hrs := rewrapTenant_eq_rewrapped hrun
    obtain ⟨-, hun, -, -⟩ := rewrapRows_spec hrs
    rw [TenantRows.secrets, TenantRows.secrets,
      forall₂_append_iff (swept_survive hold hnew hrs hcomplete), hun, List.forall₂_same]
    refine forall₂_congr fun s hs => ?_
    obtain ⟨_, hp⟩ := hsealed s (List.mem_append_right _ hs)
    exact survives_self_iff hnew hp
  · intro _ _ _ hunc
    rw [rewrapTenant_uncommitted hunc, hrun]

end Survival

/-! ### A deployment with two keys -/

/-- The tag of some data. -/
def shiftTag (aad : Bytes) : Bytes := (aad.reverse ++ List.replicate tagLen 0).take tagLen

/-- A cipher simple enough to compute with: the plaintext is shifted, and the tag is the end of
the authenticated data. -/
def shiftAead (shift : UInt8) : Aead where
  sealWith _ aad plaintext := some (plaintext.map (· + shift) ++ shiftTag aad)
  openWith _ aad ciphertext :=
    if tagLen ≤ ciphertext.length ∧
    ciphertext.drop (ciphertext.length - tagLen) = shiftTag aad then
      some ((ciphertext.take (ciphertext.length - tagLen)).map (· - shift))
    else none

theorem shiftAead_correct (shift : UInt8) : (shiftAead shift).Correct where
  openWith_sealWith := by
    intro n a p c h
    cases h
    simp [shiftAead, shiftTag, Function.comp_def]
  length_openWith := by
    intro n a p c h
    simp only [shiftAead, Option.ite_none_right_eq_some, Option.some.injEq] at h
    obtain ⟨⟨hlen, -⟩, rfl⟩ := h
    simp only [List.length_map, List.length_take]
    omega

/-- A key that shifts bytes. -/
def shiftKek (id : String) (shift : UInt8) : LocalKek where
  id := id
  key := shiftAead shift
  nonce _ _ := List.replicate nonceLen 0
  length_nonce _ _ := List.length_replicate

/-- The old key. -/
def retiringKek : Kek := (shiftKek "local:old" 1).toKek

/-- The new key. -/
def currentKek : Kek := (shiftKek "local:new" 2).toKek

/-- Both keys. -/
def twoKeys : Keyring where
  key i :=
    if i = retiringKek.id then some retiringKek
    else if i = currentKek.id then some currentKek
    else none
  id_eq := by
    intro i k h
    split_ifs at h with hold hnew
    · exact Option.some.inj h ▸ hold.symm
    · exact Option.some.inj h ▸ hnew.symm
  lawful := by
    intro i k h
    split_ifs at h with hold hnew
    · exact Option.some.inj h ▸ LocalKek.lawful (shiftAead_correct 1)
    · exact Option.some.inj h ▸ LocalKek.lawful (shiftAead_correct 2)

theorem twoKeys_has_retiringKek : twoKeys.Has retiringKek := by
  simp [Keyring.Has, twoKeys]

theorem twoKeys_has_currentKek : twoKeys.Has currentKek := by
  have hne : currentKek.id ≠ retiringKek.id := by decide
  simp [Keyring.Has, twoKeys, hne]

/-- A signing key's material and a TOTP seed, each under the key and the shift given for it. -/
def keyAndSeed (keyId : String) (keyShift : UInt8) (seedId : String) (seedShift : UInt8) :
    TenantRows where
  signingKeys :=
    [⟨"k1", "EdDSA", "sig", some ⟨keyId, List.replicate nonceLen 0, [7, 7, 7].map (· + keyShift)
      ++ shiftTag (KeyBinding.new "acme" "k1" .signing .edDsa).aad⟩⟩]
  totpCredentials :=
    [⟨"alice", seedId, List.replicate nonceLen 0, [1, 2, 3].map (· + seedShift)
      ++ shiftTag (KeyBinding.rowSecret "acme" .totpSeed "alice").aad⟩]

/-- The report of a pass over one signing key: nothing left behind, nothing stranded. -/
def oneKeyMoved : Rewrap := ⟨1, false, 0, 0, 0, 0, 0, 0, 0, 0, 0⟩

/-- With the seed under the current key from the start, the pass loses nothing. -/
theorem rewrapTenant_keyAndSeed :
    List.Forall₂ (Survives twoKeys currentKek)
      ((keyAndSeed "local:old" 1 "local:new" 2).secrets "acme")
      ((keyAndSeed "local:new" 2 "local:new" 2).secrets "acme") := by
  have hrun : rewrapTenant "acme" retiringKek currentKek true
        (keyAndSeed "local:old" 1 "local:new" 2) =
      (.ok (.rewrapped oneKeyMoved), keyAndSeed "local:new" 2 "local:new" 2) := by
    decide +kernel
  have hsld : ∀ s ∈ (keyAndSeed "local:old" 1 "local:new" 2).secrets "acme",
      ∃ p, twoKeys.plaintext s = some p := by
    have : ∀ s ∈ (keyAndSeed "local:old" 1 "local:new" 2).secrets "acme",
        (twoKeys.plaintext s).isSome := by
      decide +kernel
    exact fun s hs => Option.isSome_iff_exists.1 (this s hs)
  exact (rewrapTenant_complete twoKeys_has_retiringKek twoKeys_has_currentKek hsld hrun
    rfl).1.2 (by decide +kernel)

/-- The pass calls itself complete, and the TOTP seed that was under the retiring key opens under
that key only. -/
theorem rewrapTenant_strands_seed :
    rewrapTenant "acme" retiringKek currentKek true (keyAndSeed "local:old" 1 "local:old" 1) =
        (.ok (.rewrapped oneKeyMoved), keyAndSeed "local:new" 2 "local:old" 1) ∧
      oneKeyMoved.isComplete ∧
      ∃ s, (keyAndSeed "local:new" 2 "local:old" 1).unswept "acme" = [s] ∧
      (keyAndSeed "local:old" 1 "local:old" 1).unswept "acme" = [s] ∧
      twoKeys.plaintext s = some [1, 2, 3] ∧
      currentKek.openStored s.binding s.stored =
        .error (.kekMismatch "local:old" "local:new") := by
  refine ⟨by decide +kernel, rfl, ⟨.rowSecret "acme" .totpSeed "alice", "local:old",
    List.replicate nonceLen 0, [1, 2, 3].map (· + 1)
      ++ shiftTag (KeyBinding.rowSecret "acme" .totpSeed "alice").aad⟩, rfl, rfl, ?_⟩
  decide +kernel

end AsteriusIdp.Keys
