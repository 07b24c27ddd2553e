import AsteriusIdp.Federation.Policy

/-!
# Trust chains

`TrustAnchor.validate` accepts a chain of compact statements, leaf first, when it is a path of
delegations up to the pinned anchor, every link is signed with keys vouched for from above, and
the metadata resolves.  `TrustAnchor.validateWithIntermediates` also checks the Entity
Configurations of the intermediates.

What the checks amount to together is proved in `AsteriusIdp.Federation.ChainSound`.
-/

namespace AsteriusIdp.Federation

open Fallible

/-- The bound on the number of statements, leaf and anchor included. -/
def maxChainStatements : ℕ := 8

/-- A trust anchor pinned for one tenant. -/
structure TrustAnchor (Key : Type) where
  /-- The tenant it is pinned for. -/
  tenant : String
  /-- Its entity identifier. -/
  entityId : String
  /-- Its keys. -/
  keys : List (NamedKey Key)

/-- The relying-party metadata that registration reads. -/
structure RelyingPartyMetadata where
  redirectUris : Option (List String)
  responseTypes : Option (List String)
  grantTypes : Option (List String)
  clientRegistrationTypes : Option (List String)
  tokenEndpointAuthMethod : Option String
  jwks : Option Json
  jwksUri : Option String
  signedJwksUri : Option String
  /-- Every other member. -/
  other : Object

/-- An optional member: absent and null are the same. -/
def optionalMember (members : Object) (name : String) {α : Type} (read : Json → Option α) :
    Option (Option α) :=
  match members.lookup name with
  | none | some .null => some none
  | some value => (read value).map some

/-- The names `RelyingPartyMetadata` has fields for. -/
def relyingPartyNames : List String :=
  ["redirect_uris", "response_types", "grant_types", "client_registration_types",
   "token_endpoint_auth_method", "jwks", "jwks_uri", "signed_jwks_uri"]

/-- The typed relying-party metadata. -/
def RelyingPartyMetadata.ofJson (value : Json) : Option RelyingPartyMetadata := do
  let members ← value.asObject
  let texts (v : Json) : Option (List String) := v.asArray.bind fun l => l.mapM Json.asStr
  pure {
    redirectUris := ← optionalMember members "redirect_uris" texts
    responseTypes := ← optionalMember members "response_types" texts
    grantTypes := ← optionalMember members "grant_types" texts
    clientRegistrationTypes := ← optionalMember members "client_registration_types" texts
    tokenEndpointAuthMethod := ← optionalMember members "token_endpoint_auth_method" Json.asStr
    jwks := ← optionalMember members "jwks" some
    jwksUri := ← optionalMember members "jwks_uri" Json.asStr
    signedJwksUri := ← optionalMember members "signed_jwks_uri" Json.asStr
    other := members.filter fun e => e.1 ∉ relyingPartyNames }

/-- The relying-party metadata of a leaf that is one. -/
def relyingPartyOf (metadata : Json) : Except ChainError (Option RelyingPartyMetadata) :=
  match metadata.member "openid_relying_party" with
  | some value =>
    some <$> okOr (RelyingPartyMetadata.ofJson value) (.invalid "resolved RP metadata")
  | none => pure none

/-- What a validated chain establishes. -/
structure VerifiedChain where
  leafEntityId : String
  anchorEntityId : String
  /-- The earliest expiry of a statement. -/
  expiresAt : ℤ
  /-- The resolved leaf metadata. -/
  metadata : Json
  /-- The relying-party metadata in it, when the leaf is one. -/
  relyingParty : Option RelyingPartyMetadata

variable {Key : Type} (J : Jose Key)

/-- The keys a statement gives its subject. -/
def statementKeys (statement : Statement) : Except ChainError (List (NamedKey Key)) :=
  okOr (J.keysFromJwkSet statement.claims.jwks) (.invalid "statement JWKS")

/-- The signature verifies under the one key of the set that the header names. -/
def verifyWith (statement : Statement) (keys : List (NamedKey Key)) : Except ChainError Unit := do
  let kid ← okOr statement.token.kid (.invalid "missing kid")
  match keys.filter fun key => key.kid = some kid with
  | [key] => refuseIf (J.verify key.key statement.token = false) .signature
  | _ => .error (.invalid "kid is absent or ambiguous in JWKS")

/-- One statement of the path: not self-issued inside the chain, by an issuer not seen before,
about the entity the next statement is about.  The state is the issuers seen so far. -/
def linkStep (statements : List Statement) (issuers : List String) (e : Statement × ℕ) :
    Except ChainError (List String) := do
  let last := statements.length - 1
  refuseIf (0 < e.2 ∧ e.2 < last ∧ e.1.claims.iss = e.1.claims.sub)
    (.invalid "a subordinate statement is self-issued")
  refuseIf (e.2 < last ∧ e.1.claims.iss ∈ issuers) (.invalid "entity cycle in trust chain")
  refuseIf (e.2 < last ∧ statements[e.2 + 1]?.map (·.claims.sub) ≠ some e.1.claims.iss)
    (.invalid "issuer and next subject disagree")
  pure (if e.2 < last then issuers ++ [e.1.claims.iss] else issuers)

/-- A statement is signed with the keys of the statement above it. -/
def verifyLink (statements : List Statement) (index : ℕ) : Except ChainError Unit :=
  match statements[index]?, statements[index + 1]? with
  | some statement, some above => do
    let parentKeys ← statementKeys J above
    verifyWith J statement parentKeys
  | _, _ => pure ()

namespace TrustAnchor

variable (anchor : TrustAnchor Key)

/-- The ends of the path, its links, and the leaf's own word for its superior. -/
def checkPath (leaf superior top : Statement) (statements : List Statement) :
    Except ChainError Unit := do
  refuseIf (leaf.claims.iss ≠ leaf.claims.sub) (.invalid "leaf is not an Entity Configuration")
  refuseIf (top.claims.iss ≠ anchor.entityId ∨ top.claims.sub ≠ anchor.entityId)
    (.invalid "chain ends at a different trust anchor")
  let _ ← statements.zipIdx.foldlM (linkStep statements) []
  refuseIf (¬∃ hints ∈ leaf.claims.authorityHints, superior.claims.iss ∈ hints)
    (.invalid "leaf does not name its immediate superior")

/-- The signatures, from the pinned anchor downward; the leaf also signs for itself. -/
def checkSignatures (leaf top : Statement) (statements : List Statement) :
    Except ChainError Unit := do
  verifyWith J top anchor.keys
  let anchorKeys ← statementKeys J top
  verifyWith J top anchorKeys
  forM (List.range (statements.length - 1)).reverse (verifyLink J statements)
  let leafKeys ← statementKeys J leaf
  verifyWith J leaf leafKeys

/-- The verified chain of statements that are already parsed. -/
def validateStatements (statements : List Statement) : Except ChainError VerifiedChain :=
  match statements[0]?, statements[1]?, statements[statements.length - 1]? with
  | some leaf, some superior, some top => do
    checkPath anchor leaf superior top statements
    checkSignatures J anchor leaf top statements
    let expiresAt ← okOr (statements.map (·.claims.exp)).min? (.invalid "empty chain")
    let metadata ← resolve J.parseUrl statements
    let relyingParty ← relyingPartyOf metadata
    pure { leafEntityId := leaf.claims.iss, anchorEntityId := anchor.entityId, expiresAt, metadata,
           relyingParty }
  | _, _, _ => .error (.invalid "incomplete or overlong chain")

/-- Validate a complete chain, ordered leaf first, at the instant `now` (Unix seconds). -/
def validate (tenant : String) (compactStatements : List String) (now : ℤ) :
    Except ChainError VerifiedChain := do
  refuseIf (tenant ≠ anchor.tenant) (.invalid "tenant mismatch")
  refuseIf (¬(3 ≤ compactStatements.length ∧ compactStatements.length ≤ maxChainStatements))
    (.invalid "incomplete or overlong chain")
  let statements ← compactStatements.mapM fun raw => Statement.parse J raw now
  validateStatements J anchor statements

/-- The Entity Configuration of an intermediate agrees with the statement that delegates to it. -/
def checkIntermediate (compactStatements : List String) (now : ℤ) (e : String × ℕ) :
    Except ChainError Unit := do
  let configuration ← Statement.parse J e.1 now
  let delegation ← Statement.parse J (compactStatements.getD (e.2 + 2) "") now
  refuseIf (configuration.claims.iss ≠ configuration.claims.sub ∨
    configuration.claims.sub ≠ delegation.claims.sub)
      (.invalid "intermediate configuration identity")
  refuseIf (¬∃ hints ∈ configuration.claims.authorityHints, delegation.claims.iss ∈ hints)
    (.invalid "intermediate authority hint")
  let delegatedKeys ← statementKeys J delegation
  verifyWith J configuration delegatedKeys
  let selfKeys ← statementKeys J configuration
  verifyWith J configuration selfKeys

/-- Validate a chain together with the Entity Configurations of its intermediates, ordered from
the leaf's immediate superior upwards. -/
def validateWithIntermediates (tenant : String)
    (compactStatements intermediateConfigurations : List String) (now : ℤ) :
    Except ChainError VerifiedChain := do
  refuseIf (intermediateConfigurations.length + 3 ≠ compactStatements.length)
    (.invalid "intermediate configuration count")
  let verified ← validate J anchor tenant compactStatements now
  forM intermediateConfigurations.zipIdx (checkIntermediate J compactStatements now)
  pure verified

/-- The two ways a chain is accepted: alone, or with its intermediates' configurations. -/
def accept (tenant : String) (compactStatements : List String)
    (intermediateConfigurations : Option (List String)) (now : ℤ) :
    Except ChainError VerifiedChain :=
  match intermediateConfigurations with
  | none => validate J anchor tenant compactStatements now
  | some configurations =>
    validateWithIntermediates J anchor tenant compactStatements configurations now

end TrustAnchor

end AsteriusIdp.Federation
