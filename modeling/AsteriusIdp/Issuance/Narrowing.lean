import AsteriusIdp.Issuance.ExchangeSound

/-!
# Sequences of narrowings

A token request narrows the audience of an authorization, and the token it gets can be narrowed
again: an exchange stores the audience it resolved as the resources of the child grant.  An empty
set of authorised resources means that the client's defaults apply, so a sequence of narrowings
must never come back to one.

* `ResourceRegistry.narrow_registered`, `ResourceRegistry.narrow_subset` : after the first request
  the targets are registered, and not empty; they only shrink from then on.
* `ResourceRegistry.mem_permittedScopes_narrow` : the scopes of a smaller audience.  They grow: a
  scope stays if every server of the audience understands it.
* `Exchange.issue_targets` : an exchange narrows the resources of the grant behind its subject
  token, also where the audience of a task token leaves none of them.
-/

namespace AsteriusIdp

open Fallible

/-- A token request that narrows an audience: the resources it names, and the defaults of its
client. -/
structure Narrowing where
  requested : Finset String
  defaults : Finset String

namespace ResourceRegistry

variable (parseUrl : UrlParser)

/-- Each request narrows the targets of the one before. -/
def narrow (registry : ResourceRegistry) (authorised : Finset String)
    (requests : List Narrowing) : Except InvalidTarget (Finset String) :=
  requests.foldlM (fun targets request =>
    registry.targets parseUrl request.requested targets request.defaults) authorised

variable {parseUrl} {registry : ResourceRegistry} {authorised targets : Finset String}
  {requests : List Narrowing}

/-- What is named stays a bound, whatever comes after it. -/
theorem narrow_subset (h : registry.narrow parseUrl authorised requests = .ok targets)
    (hne : authorised ≠ ∅) : targets ≠ ∅ ∧ targets ⊆ authorised := by
  refine foldlM_invariant (I := fun current => current ≠ ∅ ∧ current ⊆ authorised) h
    ⟨hne, subset_rfl⟩ ?_
  rintro _ - _ _ ⟨hcur, hsub⟩ hnx
  obtain ⟨hnon, -, -, hwi, -⟩ := targets_spec hnx
  exact ⟨hnon, (hwi hcur).trans hsub⟩

theorem narrow_registered (h : registry.narrow parseUrl authorised requests = .ok targets)
    (hre : requests ≠ []) :
    targets ≠ ∅ ∧ ∀ target ∈ targets, registry.registers parseUrl target := by
  -- the last request decides
  obtain ⟨_, _, rfl⟩ := (List.eq_nil_or_concat' requests).resolve_left hre
  simp only [narrow, List.foldlM_append, List.foldlM_cons, List.foldlM_nil, bind_ok, pure_ok] at h
  obtain ⟨_, -, _, hla, rfl⟩ := h
  obtain ⟨hnon, hreg, -⟩ := targets_spec hla
  exact ⟨hnon, hreg⟩

/-- A smaller audience keeps the permitted scopes, and adds those that only a server it dropped
does not understand. -/
theorem mem_permittedScopes_narrow {wide granted : Finset String} (h : targets ⊆ wide)
    {scope : String} :
    scope ∈ registry.permittedScopes targets granted ↔
      scope ∈ registry.permittedScopes wide granted ∨
      (scope ∈ registry.permittedScopes targets granted ∧
        ∃ target ∈ wide \ targets, ¬(registry.servers.lookup target).all (·.permits scope)) := by
  constructor
  · intro hsc
    by_cases hdr : ∃ target ∈ wide \ targets,
        ¬(registry.servers.lookup target).all (·.permits scope)
    · exact .inr ⟨hsc, hdr⟩
    · rw [mem_permittedScopes] at hsc
      refine .inl (mem_permittedScopes.2 ⟨hsc.1, fun target htgt => ?_⟩)
      by_cases hkp : target ∈ targets
      · exact hsc.2 target hkp
      · by_contra hno
        exact hdr ⟨target, Finset.mem_sdiff.2 ⟨htgt, hkp⟩, hno⟩
  · rintro (hsc | ⟨hsc, -⟩)
    · rw [mem_permittedScopes] at hsc ⊢
      exact ⟨hsc.1, fun target htgt => hsc.2 target (h htgt)⟩
    · exact hsc

end ResourceRegistry

namespace Issuance

namespace Exchange

variable {parseUrl : UrlParser} {ex : Exchange} {token issued : TokenClaims}

theorem ceilingSets_resources {grant : Grant} {scopes resources : Finset String}
    (h : ceilingSets token grant = .ok (scopes, resources)) :
    resources = if token.task.isSome then grant.resources ∩ token.aud else grant.resources := by
  unfold ceilingSets at h
  cases htk : token.task with
  | none =>
    simp only [htk, pure_ok, Prod.mk.injEq] at h
    simp [h.2]
  | some =>
    simp only [htk, bind_ok, pure_ok, Prod.mk.injEq] at h
    obtain ⟨-, -, -, rfl⟩ := h
    simp

/-- The audience is resolved from the resources of the ceiling. -/
theorem issue_audience {after : Store} (h : ex.issue parseUrl token = .ok (issued, after)) :
    ∃ grant, ex.parent token = some grant ∧
    (ResourceRegistry.new ex.servers).targets parseUrl ex.targets
      (if token.task.isSome then grant.resources ∩ token.aud else grant.resources)
      ex.client.resources = .ok issued.aud := by
  simp only [issue, bind_ok, orFail_ok] at h
  obtain ⟨-, -, -, -, _, hce, _, -, _, -, _, -, _, htgt, ⟨_, _⟩, -, _, -, hmt⟩ := h
  simp only [subject, bind_ok, okOr_ok, pure_ok] at hce
  obtain ⟨-, -, -, -, -, -, -, -, _, -, _, hid, grant, hgr, -, -, ⟨_, _⟩, hse, rfl⟩ := hce
  simp only [target, bind_ok, orFail_ok, pure_ok] at htgt
  obtain ⟨_, hta, -, -, rfl⟩ := htgt
  have htg := (targeting_spec hta).1
  rw [(mint_spec hmt).2.1]
  refine ⟨grant, by rw [Exchange.parent, hid]; exact hgr, ?_⟩
  rw [← ceilingSets_resources hse]
  exact htg

/-- The audience of the issued token is registered; it lies in the resources of the authorization
if that names any, and in the audience of a task token if some of them are in there. -/
structure TargetsWithin (parseUrl : UrlParser) (exchange : Exchange)
    (token issued : TokenClaims) : Prop where
  nonempty : issued.aud ≠ ∅
  registered : ∀ target ∈ issued.aud,
    (ResourceRegistry.new exchange.servers).registers parseUrl target
  authorised : ∀ grant, exchange.parent token = some grant → grant.resources ≠ ∅ →
    issued.aud ⊆ grant.resources
  presented : ∀ grant, exchange.parent token = some grant → token.task.isSome →
    grant.resources ∩ token.aud ≠ ∅ → issued.aud ⊆ token.aud

theorem issue_targets (h : ex.Issues parseUrl token issued) :
    ex.TargetsWithin parseUrl token issued := by
  obtain ⟨_, h⟩ := h
  obtain ⟨_, hup, -, haud, -⟩ := issue_spec h
  obtain ⟨_, hgr, htg⟩ := issue_audience h
  obtain ⟨hnon, hreg, -, hwi, -⟩ := ResourceRegistry.targets_spec htg
  refine ⟨hnon, hreg, fun grant' hgr' => ?_, fun grant' hgr' htk hle => ?_⟩
  · cases hup.symm.trans hgr'
    exact haud
  · cases hgr.symm.trans hgr'
    simp only [htk] at hwi
    exact (hwi hle).trans Finset.inter_subset_right

end Exchange

open ResourceRegistry in
/-- **Narrowing never reaches further.**  The targets after a sequence of requests are registered
and inside what was authorised; a later set of targets is inside every earlier one, and never
empty, so that no defaults come back.  The scopes of a smaller audience are those of the larger
one and the granted ones that only dropped servers did not understand.  An exchange stays inside
the resources of the authorization, also when the audience of a task token leaves none of them. -/
theorem narrowings_bounded {parseUrl : UrlParser} {registry : ResourceRegistry}
    {authorised granted wide targets : Finset String} {before later : List Narrowing}
    (hwide : registry.narrow parseUrl authorised before = .ok wide)
    (htargets : registry.narrow parseUrl wide later = .ok targets) (hlater : later ≠ []) :
    (targets ≠ ∅ ∧ ∀ target ∈ targets, registry.registers parseUrl target) ∧
      (authorised ≠ ∅ → targets ⊆ authorised) ∧
      (before ≠ [] ∨ authorised ≠ ∅ → targets ⊆ wide ∧
        ∀ scope, scope ∈ registry.permittedScopes targets granted ↔
          scope ∈ registry.permittedScopes wide granted ∨
          (scope ∈ registry.permittedScopes targets granted ∧
            ∃ target ∈ wide \ targets, ¬(registry.servers.lookup target).all (·.permits scope))) ∧
      registry.permittedScopes targets granted ⊆ granted ∧
      ∀ (exchange : Exchange) token issued, exchange.Issues parseUrl token issued →
        exchange.TargetsWithin parseUrl token issued := by
  refine ⟨narrow_registered htargets hlater, fun hne => ?_, fun hnm => ?_,
    permittedScopes_subset, fun exchange token issued => Exchange.issue_targets⟩
  · obtain ⟨hwid, hwides⟩ := narrow_subset hwide hne
    exact (narrow_subset htargets hwid).2.trans hwides
  · have hwid : wide ≠ ∅ := by
      rcases hnm with hbef | hne
      · exact (narrow_registered hwide hbef).1
      · exact (narrow_subset hwide hne).1
    have hsub := (narrow_subset htargets hwid).2
    exact ⟨hsub, fun scope => mem_permittedScopes_narrow hsub⟩

/-! ### Two APIs -/

/-- One API that understands only `read`, and one that has not said what it understands. -/
def twoServers : ResourceRegistry :=
  .new [{ identifier := "https://a.example/", scopes := some {"read"} },
    { identifier := "https://b.example/", scopes := none }]

/-- A request for everything that was authorised. -/
def wholeAudience : Narrowing := { requested := ∅, defaults := ∅ }

/-- A request for the second API. -/
def secondServer : Narrowing := { requested := {"https://b.example/"}, defaults := ∅ }

theorem narrow_wholeAudience :
    twoServers.narrow exampleUrl {"https://a.example/", "https://b.example/"} [wholeAudience] =
      .ok {"https://a.example/", "https://b.example/"} := by
  decide +kernel

theorem narrow_secondServer :
    twoServers.narrow exampleUrl {"https://a.example/", "https://b.example/"} [secondServer] =
      .ok {"https://b.example/"} := by
  decide +kernel

theorem narrowings_bounded_second :
    ({"https://b.example/"} : Finset String) ⊆ {"https://a.example/", "https://b.example/"} ∧
      twoServers.permittedScopes {"https://b.example/"} {"read", "write"} ⊆ {"read", "write"} := by
  obtain ⟨-, hau, -, hscs, -⟩ := @narrowings_bounded exampleUrl
    twoServers _ {"read", "write"} _ _ _ _ narrow_wholeAudience narrow_secondServer
    (List.cons_ne_nil _ _)
  exact ⟨hau (by decide), hscs⟩

/-- Without the first API, the audience is permitted to write. -/
theorem permittedScopes_second :
    twoServers.narrow exampleUrl {"https://a.example/", "https://b.example/"} [wholeAudience] =
        .ok {"https://a.example/", "https://b.example/"} ∧
      twoServers.narrow exampleUrl {"https://a.example/", "https://b.example/"} [secondServer] =
        .ok {"https://b.example/"} ∧
      twoServers.permittedScopes {"https://a.example/", "https://b.example/"} {"read", "write"} =
        {"read"} ∧
      twoServers.permittedScopes {"https://b.example/"} {"read", "write"} = {"read", "write"} :=
  ⟨narrow_wholeAudience, narrow_secondServer, by decide +kernel, by decide +kernel⟩

end Issuance

end AsteriusIdp
