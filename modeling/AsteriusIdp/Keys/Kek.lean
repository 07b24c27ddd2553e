import AsteriusIdp.Lib.Fallible
import AsteriusIdp.Lib.Framing

/-!
# Key-encryption keys

A secret is stored sealed: ciphertext, nonce and the identifier of the key-encryption key (KEK)
that sealed it.  What the secret is for (`KeyBinding`) goes into the additional authenticated
data, so a sealed secret opens under its own binding.

`Kek` is the port the stores use, `LocalKek` the implementation over AES-256-GCM.  The cipher is a
parameter (`Aead`); that it is correct is `Aead.Correct`, and `LocalKek.lawful` derives what the
stores rely on (`Kek.Lawful`): what was sealed opens to the plaintext, and only under the key
whose identifier is stored with it.  `KeyBinding.aad_inj` is what makes the binding count:
different bindings authenticate different data (`LocalKek.opens_for_its_binding`).
-/

namespace AsteriusIdp.Keys

open Fallible Framing

/-- What a key signs with. -/
inductive SigningAlgorithm
  | edDsa
  | es256
  | ps256
  deriving DecidableEq, Repr

namespace SigningAlgorithm

/-- The algorithms. -/
def all : List SigningAlgorithm := [edDsa, es256, ps256]

/-- The `alg` value. -/
def asStr : SigningAlgorithm → String
  | edDsa => "EdDSA"
  | es256 => "ES256"
  | ps256 => "PS256"

/-- The algorithm of a value. -/
def parse (value : String) : Option SigningAlgorithm := all.find? fun alg => alg.asStr == value

end SigningAlgorithm

/-- What a key is for. -/
inductive KeyPurpose
  | signing
  | encryption
  deriving DecidableEq, Repr

namespace KeyPurpose

/-- The purposes. -/
def all : List KeyPurpose := [signing, encryption]

/-- The `use` value. -/
def asStr : KeyPurpose → String
  | signing => "sig"
  | encryption => "enc"

/-- The purpose of a value. -/
def parse (value : String) : Option KeyPurpose := all.find? fun purpose => purpose.asStr == value

end KeyPurpose

/-- A secret a tenant has once. -/
inductive TenantSecret
  | pairwiseSalt
  deriving DecidableEq, Repr

/-- The name that is bound. -/
def TenantSecret.asStr : TenantSecret → String
  | pairwiseSalt => "pairwise-salt"

/-- A secret a row of some table carries. -/
inductive RowSecret
  | ssfPushAuthorization
  | cibaPing
  | totpSeed
  | federationSigningKey
  | samlIdpSigningKey
  | oidcProviderClientSecret
  | oidcUpstreamPkce
  | claimsProviderUserInfo
  | claimsProviderPkce
  | claimsProviderAccessToken
  | claimsProviderRefreshToken
  deriving DecidableEq, Repr

/-- The name that is bound. -/
def RowSecret.asStr : RowSecret → String
  | ssfPushAuthorization => "ssf-push-authorization"
  | cibaPing => "ciba-ping"
  | totpSeed => "totp-seed"
  | federationSigningKey => "federation-signing-key"
  | samlIdpSigningKey => "saml-idp-signing-key"
  | oidcProviderClientSecret => "oidc-provider-client-secret"
  | oidcUpstreamPkce => "oidc-upstream-pkce"
  | claimsProviderUserInfo => "claims-provider-userinfo"
  | claimsProviderPkce => "claims-provider-pkce"
  | claimsProviderAccessToken => "claims-provider-access-token"
  | claimsProviderRefreshToken => "claims-provider-refresh-token"

/-- The secret that is sealed. -/
inductive Material
  | privateKey (kid : String) (purpose : KeyPurpose) (algorithm : SigningAlgorithm)
  | tenantSecret (secret : TenantSecret)
  | rowSecret (kind : RowSecret) (row : String)
  deriving DecidableEq, Repr

/-- What sealed material is bound to. -/
structure KeyBinding where
  tenant : String
  material : Material
  deriving DecidableEq, Repr

namespace KeyBinding

/-- The binding of a private key. -/
def new (tenant kid : String) (purpose : KeyPurpose) (algorithm : SigningAlgorithm) : KeyBinding :=
  ⟨tenant, .privateKey kid purpose algorithm⟩

/-- The binding of the secret of a row. -/
def rowSecret (tenant : String) (kind : RowSecret) (row : String) : KeyBinding :=
  ⟨tenant, .rowSecret kind row⟩

/-- The binding of the secret of a tenant. -/
def tenantSecret (tenant : String) (secret : TenantSecret) : KeyBinding :=
  ⟨tenant, .tenantSecret secret⟩

/-- Marks a private key. -/
def keyLabel : Bytes := utf8 "asterius.kek.v1"

/-- Marks the secret of a row. -/
def rowSecretLabel : Bytes := utf8 "asterius.kek.row-secret.v1"

/-- Marks the secret of a tenant. -/
def tenantSecretLabel : Bytes := utf8 "asterius.kek.tenant-secret.v1"

/-- A field behind its length, which saturates at `u32::MAX`. -/
def encodeField (field : Bytes) : Bytes := be 4 (min field.length (2 ^ 32 - 1)) ++ field

/-- A label and length-prefixed fields. -/
def encode (label : Bytes) (fields : List Bytes) : Bytes := label ++ fields.flatMap encodeField

/-- The additional authenticated data of a binding. -/
def aad (b : KeyBinding) : Bytes :=
  match b.material with
  | .privateKey kid purpose algorithm =>
    encode keyLabel [utf8 b.tenant, utf8 kid, utf8 purpose.asStr, utf8 algorithm.asStr]
  | .tenantSecret secret => encode tenantSecretLabel [utf8 b.tenant, utf8 secret.asStr]
  | .rowSecret kind row => encode rowSecretLabel [utf8 b.tenant, utf8 kind.asStr, utf8 row]

/-- The texts of a binding are shorter than a field's length can say. -/
def Fits (b : KeyBinding) : Prop :=
  (utf8 b.tenant).length < 2 ^ 32 ∧ match b.material with
    | .privateKey kid _ _ => (utf8 kid).length < 2 ^ 32
    | .tenantSecret _ => True
    | .rowSecret _ row => (utf8 row).length < 2 ^ 32

end KeyBinding

/-- Why a secret cannot be sealed or opened. -/
inductive JoseError
  | wrap
  | unwrap
  | kekMismatch (stored available : String)
  deriving DecidableEq, Repr

/-- Sealed material: the three columns it is stored in. -/
structure WrappedKey where
  kekId : String
  nonce : Bytes
  ciphertext : Bytes
  deriving DecidableEq, Repr

/-- Bytes of a nonce. -/
def nonceLen : ℕ := 12

/-- Bytes of a tag. -/
def tagLen : ℕ := 16

/-- Sealed material rebuilt from its three stored columns. -/
def WrappedKey.fromParts (kekId : String) (nonce ciphertext : Bytes) :
    Except JoseError WrappedKey :=
  if nonce.length ≠ nonceLen ∨ ciphertext.length ≤ tagLen then .error .unwrap
  else .ok ⟨kekId, nonce, ciphertext⟩

/-- The port of a key-encryption key.  The nonce of a sealing is drawn by the provider, not
passed in: a value of this type is a key together with what its provider draws. -/
structure Kek where
  id : String
  wrap : KeyBinding → Bytes → Except JoseError WrappedKey
  unwrap : KeyBinding → WrappedKey → Except JoseError Bytes

namespace Kek

/-- Open stored material: rebuild it from its columns, then unwrap it. -/
def openStored (kek : Kek) (b : KeyBinding) (stored : WrappedKey) : Except JoseError Bytes := do
  let wrapped ← WrappedKey.fromParts stored.kekId stored.nonce stored.ciphertext
  kek.unwrap b wrapped

/-- What the stores rely on. -/
structure Lawful (kek : Kek) : Prop where
  /-- Sealed material carries the identifier of the key. -/
  kekId_wrap : ∀ {b p w}, kek.wrap b p = .ok w → w.kekId = kek.id
  /-- Sealed material opens under its binding to what was sealed. -/
  unwrap_wrap : ∀ {b p w}, kek.wrap b p = .ok w → kek.unwrap b w = .ok p
  /-- Sealed material can be rebuilt from its columns, unless nothing was sealed. -/
  fromParts_wrap : ∀ {b p w}, kek.wrap b p = .ok w → p ≠ [] →
    WrappedKey.fromParts w.kekId w.nonce w.ciphertext = .ok w
  /-- Material that names another key does not open. -/
  kekId_unwrap : ∀ {b p w}, kek.unwrap b w = .ok p → w.kekId = kek.id
  /-- The ciphertext is as long as the plaintext and the tag. -/
  length_unwrap : ∀ {b p w}, kek.unwrap b w = .ok p → w.ciphertext.length = p.length + tagLen

variable {kek : Kek} {b : KeyBinding} {stored : WrappedKey} {p : Bytes}

theorem openStored_ok :
    kek.openStored b stored = .ok p ↔
      stored.nonce.length = nonceLen ∧ tagLen < stored.ciphertext.length ∧
      kek.unwrap b stored = .ok p := by
  simp only [openStored, WrappedKey.fromParts, bind_ok]
  split_ifs with h
  · simp only [false_and, exists_false, false_iff, not_and]
    omega
  · simp only [not_or, not_not, not_le] at h
    simp [h]

theorem Lawful.kekId_of_openStored (hkek : kek.Lawful) (h : kek.openStored b stored = .ok p) :
    stored.kekId = kek.id :=
  hkek.kekId_unwrap (openStored_ok.1 h).2.2

/-- What opened from storage was not empty, so it can be sealed and stored again. -/
theorem Lawful.ne_nil_of_openStored (hkek : kek.Lawful) (h : kek.openStored b stored = .ok p) :
    p ≠ [] := by
  obtain ⟨-, hlen, hun⟩ := openStored_ok.1 h
  rintro rfl
  have := hkek.length_unwrap hun
  simp only [List.length_nil] at this
  omega

theorem Lawful.openStored_wrap (hkek : kek.Lawful) (h : kek.wrap b p = .ok stored)
    (hp : p ≠ []) : kek.openStored b stored = .ok p := by
  simp only [openStored, hkek.fromParts_wrap h hp]
  exact hkek.unwrap_wrap h

end Kek

/-- AES-256-GCM under one key. -/
structure Aead where
  sealWith : (nonce aad plaintext : Bytes) → Option Bytes
  openWith : (nonce aad ciphertext : Bytes) → Option Bytes

/-- What was sealed opens, and the ciphertext is the plaintext's length and a tag. -/
structure Aead.Correct (aead : Aead) : Prop where
  openWith_sealWith : ∀ {n a p c}, aead.sealWith n a p = some c → aead.openWith n a c = some p
  length_openWith : ∀ {n a p c}, aead.openWith n a c = some p → c.length = p.length + tagLen

/-- A key-encryption key held in the process.  `nonce b p` is the nonce the provider draws when
it seals `p` for `b`. -/
structure LocalKek where
  id : String
  key : Aead
  nonce : KeyBinding → Bytes → Bytes
  length_nonce : ∀ b p, (nonce b p).length = nonceLen

namespace LocalKek

/-- Seal under a fresh nonce. -/
def sealKey (kek : LocalKek) (b : KeyBinding) (plaintext : Bytes) :
    Except JoseError WrappedKey := do
  let nonce := kek.nonce b plaintext
  let ciphertext ← okOr (kek.key.sealWith nonce b.aad plaintext) .wrap
  pure ⟨kek.id, nonce, ciphertext⟩

/-- Open what this key has sealed. -/
def openKey (kek : LocalKek) (b : KeyBinding) (wrapped : WrappedKey) : Except JoseError Bytes := do
  refuseIf (wrapped.kekId ≠ kek.id) (.kekMismatch wrapped.kekId kek.id)
  refuseIf (wrapped.nonce.length ≠ nonceLen) .unwrap
  okOr (kek.key.openWith wrapped.nonce b.aad wrapped.ciphertext) .unwrap

/-- As the port. -/
def toKek (kek : LocalKek) : Kek := ⟨kek.id, kek.sealKey, kek.openKey⟩

variable {kek : LocalKek} {b : KeyBinding} {p : Bytes} {w : WrappedKey}

theorem sealKey_ok :
    kek.sealKey b p = .ok w ↔
      ∃ c, kek.key.sealWith (kek.nonce b p) b.aad p = some c ∧ ⟨kek.id, kek.nonce b p, c⟩ = w := by
  simp [sealKey]

theorem openKey_ok :
    kek.openKey b w = .ok p ↔
      w.kekId = kek.id ∧ w.nonce.length = nonceLen ∧
      kek.key.openWith w.nonce b.aad w.ciphertext = some p := by
  simp [openKey]

/-- **A local key over a correct cipher is lawful.** -/
theorem lawful (hkey : kek.key.Correct) : kek.toKek.Lawful where
  kekId_wrap h := by
    obtain ⟨c, -, rfl⟩ := sealKey_ok.1 h
    rfl
  unwrap_wrap h := by
    obtain ⟨c, hc, rfl⟩ := sealKey_ok.1 h
    exact openKey_ok.2 ⟨rfl, kek.length_nonce _ _, hkey.openWith_sealWith hc⟩
  fromParts_wrap := by
    intro b p w h hp
    obtain ⟨c, hc, rfl⟩ := sealKey_ok.1 h
    have hlen := hkey.length_openWith (hkey.openWith_sealWith hc)
    have hpos := List.length_pos_iff.2 hp
    have hnon := kek.length_nonce b p
    rw [WrappedKey.fromParts, if_neg (by simp only [not_or, not_not, hnon, true_and]; omega)]
  kekId_unwrap h := (openKey_ok.1 h).1
  length_unwrap h := hkey.length_openWith (openKey_ok.1 h).2.2

end LocalKek

end AsteriusIdp.Keys
