import AsteriusIdp.Lib.Fallible
import AsteriusIdp.Lib.Text

/-!
# Issuer identifiers

An issuer identifier is an `https` URL with a host and no query, fragment or userinfo, kept in
the one spelling it has in `iss` claims.  Parsing a URL itself is the work of a library; it is a
parameter here, and the checks on its parts are the program's.
-/

namespace AsteriusIdp

/-- The parts of a parsed URL. -/
structure Url where
  /-- The scheme, in lower case. -/
  scheme : String
  /-- The user name, empty when there is none. -/
  username : String
  password : Option String
  /-- The host, in lower case. -/
  host : Option String
  /-- The port, absent when it is the scheme's default. -/
  port : Option ℕ
  path : String
  /-- The query component. -/
  query : Option String
  /-- The fragment component. -/
  fragment : Option String
  /-- The URL has no hierarchical part, such as `mailto:`. -/
  cannotBeABase : Bool := false

/-- Reads a text as a URL, if it is one. -/
abbrev UrlParser := String → Option Url

/-- The host, and the port where it is not the default one. -/
def Url.authority (url : Url) (host : String) : String :=
  match url.port with
  | some port => host ++ ":" ++ toString port
  | none => host

/-- Why a string is not an issuer identifier. -/
inductive IssuerError where
  | notAUrl
  | notHttps (scheme : String)
  | hasQuery
  | hasFragment
  | hasUserinfo
  | noHost
  deriving DecidableEq

open Fallible

/-- Validate and canonicalise an issuer identifier. -/
def Issuer.parse (parseUrl : UrlParser) (raw : String) : Except IssuerError String := do
  let url ← okOr (parseUrl raw) .notAUrl
  refuseIf (url.scheme ≠ "https") (.notHttps url.scheme)
  refuseIf url.query.isSome .hasQuery
  refuseIf url.fragment.isSome .hasFragment
  refuseIf (url.username ≠ "" ∨ url.password.isSome) .hasUserinfo
  let host ← okOr url.host .noHost
  pure ("https://" ++ url.authority host ++ Text.trimEnd '/' url.path)

end AsteriusIdp
