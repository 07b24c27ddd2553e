import AsteriusIdp.Issuer
import AsteriusIdp.Domain.Grant

/-!
# Resource servers and audiences

The registry of a tenant's resource servers decides what an access token is audienced at and which
scopes it may carry there.

* `ResourceRegistry.targets_spec`: the audience is registered, not empty, what the request named
  if it named anything, and inside the authorised resources if there are any.
* `ResourceRegistry.mem_permittedScopes`: a scope stays if every server of the audience
  understands it.
-/

namespace AsteriusIdp

open Fallible

/-- The resource cannot be an audience of the token asked for. -/
inductive InvalidTarget where
  | invalidTarget
  deriving DecidableEq

/-- An identifier of a resource: an absolute URI with a host and without a fragment. -/
def ResourceIdentifier.parse (parseUrl : UrlParser) (raw : String) :
    Except InvalidTarget String := do
  refuseIf (raw = "" ∨ raw.utf8ByteSize > 512) .invalidTarget
  refuseIf ('#' ∈ raw.toList) .invalidTarget
  let parsed ← okOr (parseUrl raw) .invalidTarget
  refuseIf (parsed.fragment.isSome ∨ parsed.cannotBeABase ∨ parsed.host.isNone) .invalidTarget
  pure raw

/-- One API that accepts the tenant's access tokens. -/
structure ResourceServer where
  identifier : String
  /-- The scopes it understands; `none` restricts nothing. -/
  scopes : Option (Finset String)

/-- The server understands the scope. -/
def ResourceServer.permits (server : ResourceServer) (scope : String) : Bool :=
  server.scopes.all (scope ∈ ·)

/-- The resource servers of a tenant, by identifier. -/
structure ResourceRegistry where
  servers : Entries String ResourceServer

namespace ResourceRegistry

/-- At most 256 servers. -/
def new (servers : List ResourceServer) : ResourceRegistry :=
  ⟨(servers.take 256).foldl (fun m server => m.insert server.identifier server) []⟩

variable (parseUrl : UrlParser)

/-- The resource server a value names. -/
def resolve (registry : ResourceRegistry) (raw : String) : Except InvalidTarget ResourceServer := do
  let identifier ← ResourceIdentifier.parse parseUrl raw
  okOr (registry.servers.lookup identifier) .invalidTarget

/-- A server has the identifier. -/
def registers (registry : ResourceRegistry) (raw : String) : Bool :=
  (registry.resolve parseUrl raw).isOk

/-- What an access token is audienced at: what was requested, or everything that was authorised.
A client's defaults stand in where the authorization named nothing. -/
def targets (registry : ResourceRegistry) (requested authorised defaults : Finset String) :
    Except InvalidTarget (Finset String) := do
  refuseIf (∃ value ∈ requested, ¬registry.registers parseUrl value) .invalidTarget
  let permitted :=
    if authorised = ∅ then defaults.filter (registry.registers parseUrl ·) else authorised
  refuseIf (¬requested ⊆ permitted) .invalidTarget
  let chosen := if requested = ∅ then permitted else requested
  refuseIf (chosen = ∅ ∨ chosen.card > Grant.maxResources) .invalidTarget
  refuseIf (∃ value ∈ chosen, ¬registry.registers parseUrl value) .invalidTarget
  pure chosen

/-- The granted scopes that every resource server of an audience understands. -/
def permittedScopes (registry : ResourceRegistry) (targets granted : Finset String) :
    Finset String :=
  granted.filter fun scope =>
    ∀ target ∈ targets, (registry.servers.lookup target).all (·.permits scope)

variable {parseUrl} {registry : ResourceRegistry} {requested authorised defaults : Finset String}

theorem targets_spec {chosen : Finset String}
    (h : registry.targets parseUrl requested authorised defaults = .ok chosen) :
    chosen ≠ ∅ ∧ (∀ value ∈ chosen, registry.registers parseUrl value) ∧
    (requested ≠ ∅ → chosen = requested) ∧ (authorised ≠ ∅ → chosen ⊆ authorised) ∧
    (authorised = ∅ → chosen ⊆ defaults) := by
  simp only [targets, bind_ok, refuseIf_ok, pure_ok, not_exists, not_and, not_or, not_not] at h
  obtain ⟨-, -, -, hsub, -, ⟨hne, -⟩, -, hreg, rfl⟩ := h
  refine ⟨hne, hreg, fun hreq => if_neg hreq, fun hau => ?_,
    fun hau => ?_⟩
  · rw [if_neg hau] at hsub ⊢
    split_ifs
    · exact subset_rfl
    · exact hsub
  · rw [if_pos hau] at hsub ⊢
    split_ifs
    · exact Finset.filter_subset _ _
    · exact hsub.trans (Finset.filter_subset _ _)

@[simp]
theorem mem_permittedScopes {targets granted : Finset String} {scope : String} :
    scope ∈ registry.permittedScopes targets granted ↔ scope ∈ granted ∧
    ∀ target ∈ targets, (registry.servers.lookup target).all (·.permits scope) := by
  simp [permittedScopes]

theorem permittedScopes_subset {targets granted : Finset String} :
    registry.permittedScopes targets granted ⊆ granted :=
  Finset.filter_subset _ _

end ResourceRegistry

end AsteriusIdp
