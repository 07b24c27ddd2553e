import AsteriusIdp.Issuer
import AsteriusIdp.Keys.Kek
import AsteriusIdp.Lib.Base64
import AsteriusIdp.Lib.Decimal
import AsteriusIdp.Time

/-!
# Signed HTTP messages

The profile of RFC 9421 that configured peers speak.  A message carries three fields: the digest of
its body, the input of the signature and the signature.  What is signed is a text of lines, the
*signature base*: the covered components of the message, the digest and the parameters.

* `signRequest`, `signResponse` write the fields;
* `verifyRequest`, `verifyResponse` check them against a pinned key and return the identity of the
  message, which the caller then consumes.

SHA-256, Ed25519 and the URL parser are parameters.  `Message` is what a signature is meant to say,
`Message.toBeSigned` the base that the signer makes of it.
-/

namespace AsteriusIdp.Http

open Fallible Framing Keys

/-- What the signature of a request covers. -/
def requestComponents : String := "(\"@method\" \"@target-uri\" \"content-digest\")"

/-- What the signature of a response covers. -/
def responseComponents : String := "(\"@status\" \"content-digest\")"

/-- The largest body, in bytes. -/
def maxBody : ℕ := 1024 * 1024

/-- The longest `Signature-Input`, in bytes. -/
def maxInput : ℕ := 1024

/-- The longest life of a message, in seconds. -/
def maxLifetime : ℤ := 300

/-- The third-party functions the profile calls. -/
structure Primitives where
  parseUrl : UrlParser
  sha256 : Bytes → Bytes
  length_sha256 : ∀ body, (sha256 body).length = 32

/-- The three fields that a protected message carries. -/
structure SignedFields where
  contentDigest : String
  signatureInput : String
  signature : String
  deriving DecidableEq, Repr

/-- The identity of a verified message. -/
structure VerifiedMessage where
  keyid : String
  nonce : String
  expiresAt : ℤ
  deriving DecidableEq, Repr

/-- Where a request goes, as it is signed. -/
@[ext] structure RequestTarget where
  method : String
  targetUri : String
  deriving DecidableEq, Repr

/-- Why a message is not signed, or not accepted. -/
inductive HttpSignatureError
  | bounds
  | format
  | invalid
  | time
  | key
  | sign
  deriving DecidableEq, Repr

/-- A private key; `sign` has no value when the provider fails. -/
structure SigningKey where
  algorithm : SigningAlgorithm
  sign : Bytes → Option Bytes

/-- A public key. -/
structure VerifyingKey where
  algorithm : SigningAlgorithm
  verify : Bytes → Bytes → Bool

variable (W : Primitives)

/-! ### The parts of a message -/

/-- An upper-case method and an `https` target without credentials and fragment. -/
def validateRequest (target : RequestTarget) : Except HttpSignatureError Unit := do
  refuseIf (target.method = "" ∨ ¬target.method.toList.all Char.isUpper ∨
    2048 < target.targetUri.utf8ByteSize) .format
  let uri ← okOr (W.parseUrl target.targetUri) .format
  refuseIf (uri.scheme ≠ "https" ∨ uri.host = none ∨ uri.username ≠ "" ∨ uri.password.isSome ∨
    uri.fragment.isSome) .format

/-- The status of a response, an inline check of both wrappers. -/
def validateStatus (status : ℕ) : Except HttpSignatureError Unit :=
  refuseIf (¬(100 ≤ status ∧ status ≤ 599)) .format

/-- The characters of a key id. -/
def isKeyidChar (c : Char) : Bool := c.isAlphanum || c = '-' || c = '_' || c = '.'

/-- The characters of a nonce. -/
def isNonceChar (c : Char) : Bool := c.isAlphanum || c = '-' || c = '_'

/-- The checks that signer and verifier share: sizes, lifetime and the two identifiers. -/
def validateCommon (body : Bytes) (keyid nonce : String) (created expires : ℤ) :
    Except HttpSignatureError Unit := do
  -- `checked_sub` has no value when the difference is no `i64`
  let lifetime := expires - created
  refuseIf (maxBody < body.length ∨ ¬Decimal.Fits 64 lifetime ∨ lifetime = 0 ∨
    maxLifetime < lifetime) .bounds
  refuseIf (keyid = "" ∨ 128 < keyid.utf8ByteSize ∨ ¬keyid.toList.all isKeyidChar ∨
    ¬(16 ≤ nonce.utf8ByteSize ∧ nonce.utf8ByteSize ≤ 128) ∨ ¬nonce.toList.all isNonceChar) .format

/-- The `Content-Digest` of a body. -/
def digest (body : Bytes) : String := "sha-256=:" ++ (Base64.encode (W.sha256 body) ++ ":")

/-- The `Signature-Input` of a message. -/
def input (components : String) (created expires : ℤ) (nonce keyid : String) : String :=
  "sig1=" ++ (components ++ (";created=" ++ (created.repr ++ (";expires=" ++ (expires.repr ++
    (";nonce=\"" ++ (nonce ++ ("\";keyid=\"" ++ (keyid ++ "\";alg=\"ed25519\"")))))))))

/-- The parameters that a `Signature-Input` spells out. -/
structure ParsedInput where
  created : ℤ
  expires : ℤ
  nonce : String
  keyid : String
  deriving DecidableEq, Repr

/-- Read a `Signature-Input` that covers the components expected. -/
def parseInput (value components : String) : Except HttpSignatureError ParsedInput := do
  let tail ← okOr (Text.stripStart ("sig1=" ++ (components ++ ";created=")) value) .format
  let (created, tail) ← okOr (Text.splitOnce ";expires=" tail) .format
  let (expires, tail) ← okOr (Text.splitOnce ";nonce=\"" tail) .format
  let (nonce, tail) ← okOr (Text.splitOnce "\";keyid=\"" tail) .format
  let keyid ← okOr (Text.stripEnd "\";alg=\"ed25519\"" tail) .format
  let created ← okOr (Decimal.parse 64 created) .format
  let expires ← okOr (Decimal.parse 64 expires) .format
  -- one text for each value: a sign or a leading zero that was not needed is refused
  refuseIf (input components created expires nonce keyid ≠ value) .format
  pure ⟨created, expires, nonce, keyid⟩

/-- One covered component of the base, with the end of its line. -/
def component (base : String) (part : String × String) : Except HttpSignatureError String := do
  refuseIf ('\r' ∈ part.2.toList ∨ '\n' ∈ part.2.toList) .format
  pure (base ++ ("\"" ++ part.1 ++ "\": " ++ part.2 ++ "\n"))

/-- The text that is signed. -/
def signatureBase (components : List (String × String)) (contentDigest signatureInput : String) :
    Except HttpSignatureError String := do
  let base ← components.foldlM component ""
  let params ← okOr (Text.stripStart "sig1=" signatureInput) .format
  pure (base ++ ("\"content-digest\": " ++ contentDigest ++ "\n") ++
    ("\"@signature-params\": " ++ params))

/-! ### Signing -/

/-- `sign`, with its arguments in the source's order; the instants are rounded to seconds. -/
def sign (components : List (String × String)) (componentList : String) (body : Bytes)
    (keyid nonce : String) (validity : ℤ × ℤ) (key : SigningKey) :
    Except HttpSignatureError SignedFields := do
  let created := unixTimestamp validity.1
  let expires := unixTimestamp validity.2
  refuseIf (key.algorithm ≠ .edDsa) .key
  validateCommon body keyid nonce created expires
  let contentDigest := digest W body
  let signatureInput := input componentList created expires nonce keyid
  let base ← signatureBase components contentDigest signatureInput
  let signature ← okOr (key.sign (utf8 base)) .sign
  pure ⟨contentDigest, signatureInput, "sig1=:" ++ (Base64.encode signature ++ ":")⟩

/-- The fields that protect a request. -/
def signRequest (target : RequestTarget) (body : Bytes) (keyid nonce : String)
    (created expires : ℤ) (key : SigningKey) : Except HttpSignatureError SignedFields := do
  validateRequest W target
  sign W [("@method", target.method), ("@target-uri", target.targetUri)] requestComponents body
    keyid nonce (created, expires) key

/-- The fields that protect a response. -/
def signResponse (status : ℕ) (body : Bytes) (keyid nonce : String) (created expires : ℤ)
    (key : SigningKey) : Except HttpSignatureError SignedFields := do
  validateStatus status
  sign W [("@status", status.repr)] responseComponents body keyid nonce (created, expires) key

/-! ### Verifying -/

/-- The clock half of `verify`, an inline check of it. -/
def checkTime (parsed : ParsedInput) (now : ℤ) : Except HttpSignatureError Unit :=
  let now := unixTimestamp now
  refuseIf (now + 60 < parsed.created ∨ parsed.created < now - maxLifetime ∨
    parsed.expires < now) .time

/-- The bytes of a signature field. -/
def readSignature (signature : String) : Option Bytes := do
  let value ← Text.stripStart "sig1=:" signature
  let value ← Text.stripEnd ":" value
  (Base64.decode value).filter fun bytes => bytes.length == 64

/-- Check the fields of a message against a pinned key; the signature is looked at last. -/
def verify (components : List (String × String)) (componentList : String) (body : Bytes)
    (fields : SignedFields) (expectedKeyid : String) (key : VerifyingKey) (now : ℤ) :
    Except HttpSignatureError VerifiedMessage := do
  refuseIf (key.algorithm ≠ .edDsa) .key
  refuseIf (maxBody < body.length ∨ maxInput < fields.signatureInput.utf8ByteSize ∨
    256 < fields.signature.utf8ByteSize ∨ 128 < fields.contentDigest.utf8ByteSize) .bounds
  refuseIf (fields.contentDigest ≠ digest W body) .invalid
  let parsed ← parseInput fields.signatureInput componentList
  validateCommon body parsed.keyid parsed.nonce parsed.created parsed.expires
  refuseIf (parsed.keyid ≠ expectedKeyid) .invalid
  checkTime parsed now
  let signature ← okOr (readSignature fields.signature) .format
  let base ← signatureBase components fields.contentDigest fields.signatureInput
  refuseIf (key.verify (utf8 base) signature = false) .invalid
  let expiresAt ← okOr (checkedFromUnixTimestamp parsed.expires) .time
  pure ⟨parsed.keyid, parsed.nonce, expiresAt⟩

/-- The identity of a request whose fields are in order. -/
def verifyRequest (target : RequestTarget) (body : Bytes) (fields : SignedFields)
    (expectedKeyid : String) (key : VerifyingKey) (now : ℤ) :
    Except HttpSignatureError VerifiedMessage := do
  validateRequest W target
  verify W [("@method", target.method), ("@target-uri", target.targetUri)] requestComponents body
    fields expectedKeyid key now

/-- The identity of a response whose fields are in order. -/
def verifyResponse (status : ℕ) (body : Bytes) (fields : SignedFields) (expectedKeyid : String)
    (key : VerifyingKey) (now : ℤ) : Except HttpSignatureError VerifiedMessage := do
  validateStatus status
  verify W [("@status", status.repr)] responseComponents body fields expectedKeyid key now

/-! ### What a signature says -/

/-- A request or a response. -/
inductive Kind
  | request (target : RequestTarget)
  | response (status : ℕ)
  deriving DecidableEq, Repr

namespace Kind

/-- The covered components with their values. -/
def components : Kind → List (String × String)
  | request target => [("@method", target.method), ("@target-uri", target.targetUri)]
  | response status => [("@status", status.repr)]

/-- The covered components, as the input lists them. -/
def componentList : Kind → String
  | request _ => requestComponents
  | response _ => responseComponents

/-- `validateRequest` or `validateStatus`. -/
def validate : Kind → Except HttpSignatureError Unit
  | request target => validateRequest W target
  | response status => validateStatus status

/-- `signRequest` or `signResponse`. -/
def sign (kind : Kind) (body : Bytes) (keyid nonce : String) (created expires : ℤ)
    (key : SigningKey) : Except HttpSignatureError SignedFields :=
  match kind with
  | request target => signRequest W target body keyid nonce created expires key
  | response status => signResponse W status body keyid nonce created expires key

/-- `verifyRequest` or `verifyResponse`. -/
def verify (kind : Kind) (body : Bytes) (fields : SignedFields) (expectedKeyid : String)
    (key : VerifyingKey) (now : ℤ) : Except HttpSignatureError VerifiedMessage :=
  match kind with
  | request target => verifyRequest W target body fields expectedKeyid key now
  | response status => verifyResponse W status body fields expectedKeyid key now

end Kind

/-- A message as its signer means it; the times are `i64` seconds. -/
structure Message where
  kind : Kind
  body : Bytes
  created : ℤ
  expires : ℤ
  nonce : String
  keyid : String
  fits_created : Decimal.Fits 64 created
  fits_expires : Decimal.Fits 64 expires
  deriving DecidableEq

namespace Message

/-- The input of the signature over a message. -/
def input (m : Message) : String :=
  Http.input m.kind.componentList m.created m.expires m.nonce m.keyid

/-- The base of a message that passes the checks of the signer. -/
def toBeSigned (m : Message) : Except HttpSignatureError String := do
  m.kind.validate W
  validateCommon m.body m.keyid m.nonce m.created m.expires
  signatureBase m.kind.components (digest W m.body) m.input

/-- What the input of the signature spells out. -/
def parsed (m : Message) : ParsedInput := ⟨m.created, m.expires, m.nonce, m.keyid⟩

/-- The fields of a message under a signature. -/
def fields (m : Message) (signature : Bytes) : SignedFields :=
  ⟨digest W m.body, m.input, "sig1=:" ++ (Base64.encode signature ++ ":")⟩

/-- What the verifier returns for a message. -/
def verified (m : Message) : VerifiedMessage := ⟨m.keyid, m.nonce, fromUnixTimestamp m.expires⟩

end Message

end AsteriusIdp.Http
