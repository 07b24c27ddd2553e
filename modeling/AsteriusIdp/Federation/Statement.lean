import AsteriusIdp.Issuer
import AsteriusIdp.Json

/-!
# Entity Statements

A federation chain is a list of signed Entity Statements.  `Statement.parse` reads one without
verifying it: size, header, claims, identifiers, lifetime.  What other libraries do is gathered
in `Jose`: cutting a compact token into its parts, reading a key set, checking one signature
under one key, parsing a URL.
-/

namespace AsteriusIdp.Federation

open Fallible

/-- Why an offered chain cannot establish trust. -/
inductive ChainError where
  /-- An input exceeds its fixed resource budget. -/
  | tooLarge
  /-- Structure, identity, timestamp or key metadata is invalid. -/
  | invalid (what : String)
  /-- A signature did not verify under the key the chain delegates. -/
  | signature
  /-- An extension that is not implemented. -/
  | unsupported (what : String)
  deriving DecidableEq

/-- A compact token cut into its parts, not verified yet. -/
structure Unverified where
  /-- The `typ` of the header. -/
  typ : Option String
  /-- The `kid` of the header. -/
  kid : Option String
  /-- The header bytes read as JSON. -/
  header : Option Json
  /-- The payload bytes read as JSON. -/
  payload : Option Json
  /-- What the signature covers. -/
  signingInput : String
  signature : List UInt8

/-- A verification key of a key set, under its `kid`. -/
structure NamedKey (Key : Type) where
  /-- The `kid` the set gives the key. -/
  kid : Option String
  key : Key

/-- What the validator takes from the JOSE and URL code below it. -/
structure Jose (Key : Type) where
  /-- Cut a compact token into its parts. -/
  parse : String → Option Unverified
  /-- The keys of a JWK set. -/
  keysFromJwkSet : Json → Option (List (NamedKey Key))
  /-- Does the signature of the token verify under the key? -/
  verify : Key → Unverified → Bool
  parseUrl : UrlParser

/-- The claims of an Entity Statement. -/
structure Claims where
  iss : String
  sub : String
  iat : ℤ
  exp : ℤ
  jwks : Json
  authorityHints : Option (List String)
  metadata : Option Json
  /-- Every member the statement has besides these. -/
  other : Object

/-- An Entity Statement: the token and the claims it carries. -/
structure Statement where
  token : Unverified
  claims : Claims

/-- The size bound on a compact statement. -/
def maxStatementBytes : ℕ := 65536

/-- The names `Claims` has fields for. -/
def claimNames : List String :=
  ["iss", "sub", "iat", "exp", "jwks", "authority_hints", "metadata"]

/-- The claims read from the members of the payload. -/
def Claims.ofObject (members : Object) : Option Claims := do
  let iss ← (members.lookup "iss").bind Json.asStr
  let sub ← (members.lookup "sub").bind Json.asStr
  let iat ← (members.lookup "iat").bind Json.asI64
  let exp ← (members.lookup "exp").bind Json.asI64
  let jwks ← members.lookup "jwks"
  let authorityHints ← match members.lookup "authority_hints" with
    | none | some .null => some none
    | some hints => (hints.asArray.bind fun l => l.mapM Json.asStr).map some
  let metadata := match members.lookup "metadata" with
    | none | some .null => none
    | some value => some value
  pure { iss, sub, iat, exp, jwks, authorityHints, metadata,
         other := members.filter fun e => e.1 ∉ claimNames }

section Parse

variable {Key : Type} (J : Jose Key)

/-- An entity identifier is an issuer identifier in its canonical spelling. -/
def validEntityId (raw : String) : Except ChainError Unit := do
  refuseIf (raw.utf8ByteSize > 2048) .tooLarge
  let canonical ← (Issuer.parse J.parseUrl raw).mapError fun _ => .invalid "entity identifier"
  refuseIf (canonical ≠ raw) (.invalid "noncanonical entity identifier")

/-- The rules on a `source_endpoint` claim. -/
def checkSourceEndpoint (claims : Claims) : Except ChainError Unit :=
  match claims.other.lookup "source_endpoint" with
  | none => pure ()
  | some source => do
    let source ← okOr source.asStr (.invalid "source_endpoint")
    let url ← okOr (J.parseUrl source) (.invalid "source_endpoint")
    refuseIf (claims.iss = claims.sub ∨ url.scheme ≠ "https" ∨ url.host.isNone ∨
      url.username ≠ "" ∨ url.password.isSome ∨ url.fragment.isSome) (.invalid "source_endpoint")

/-- Authority hints stand on an Entity Configuration only, and name entities. -/
def checkAuthorityHints (claims : Claims) : Except ChainError Unit :=
  match claims.authorityHints with
  | none => pure ()
  | some hints => do
    refuseIf (claims.iss ≠ claims.sub ∨ hints = [])
      (.invalid "authority hints on a non-configuration")
    forM hints (validEntityId J)

/-- Metadata is an object of objects without null members. -/
def checkMetadata (claims : Claims) : Except ChainError Unit :=
  match claims.metadata with
  | none => pure ()
  | some metadata => do
    let members ← okOr metadata.asObject (.invalid "metadata is not an object")
    refuseIf (∃ e ∈ members, e.2.asObject = none) (.invalid "entity-type metadata is not an object")
    refuseIf (∃ e ∈ members, ∃ fields ∈ e.2.asObject, ∃ f ∈ fields, f.2 = .null)
      (.invalid "null metadata value")

/-- The claims this implementation refuses to interpret. -/
def unsupportedClaims : List String :=
  ["crit", "trust_marks", "trust_mark_issuers", "trust_mark_owners", "trust_anchor_hints", "ref",
   "delegation"]

/-- Read a statement at the instant `now` (Unix seconds), without verifying its signature. -/
def Statement.parse (raw : String) (now : ℤ) : Except ChainError Statement := do
  refuseIf (raw.utf8ByteSize > maxStatementBytes) .tooLarge
  let token ← okOr (J.parse raw) (.invalid "compact JWS")
  refuseIf (token.typ ≠ some "entity-statement+jwt") (.invalid "entity statement typ")
  let kid ← okOr token.kid (.invalid "missing kid")
  refuseIf (kid = "") (.invalid "empty kid")
  let header ← okOr token.header (.invalid "JWS header")
  let members ← okOr header.asObject (.invalid "JWS header is not an object")
  refuseIf (∃ e ∈ members, e.1 ∉ ["alg", "typ", "kid"]) (.unsupported "JWS header extension")
  let rawClaims ← okOr token.payload (.invalid "Entity Statement claims")
  let claimMembers ←
    okOr rawClaims.asObject (.invalid "Entity Statement claims are not an object")
  refuseIf (∃ field ∈ ["metadata", "authority_hints"], claimMembers.lookup field = some .null)
    (.invalid "null Entity Statement claim")
  let claims ← okOr (Claims.ofObject claimMembers) (.invalid "Entity Statement claims")
  validEntityId J claims.iss
  validEntityId J claims.sub
  refuseIf (claims.iat ≥ now ∨ claims.exp ≤ now ∨ claims.exp ≤ claims.iat)
    (.invalid "Entity Statement lifetime")
  refuseIf (∃ name ∈ unsupportedClaims, claims.other.contains name)
    (.unsupported "critical claim or trust mark")
  checkSourceEndpoint J claims
  checkAuthorityHints J claims
  checkMetadata claims
  pure { token, claims }

end Parse

end AsteriusIdp.Federation
