import AsteriusIdp.Entitlements.Store
import AsteriusIdp.Policy.DocumentBounds

/-!
# The remedy of a conditional scope

A scope that denies may name an authentication context that would change its mind.  It finds out by
evaluating a hypothetical request: the same one, with that context proved this instant.

* `ConditionalScope.evaluate_permit_of_snapshot`: a permit survives a change of the snapshot that
  leaves alone what the rules can see of it.
* `DocumentScope.remedy_helps`: the scope denies now, and permits every request that differs only by
  the authentication the remedy asks for.

How long ago that authentication may be is up to the rules: `ConditionalScope.IsFresh` says that it
is within every age they test.  In a scope read from a document, a minute ago always is
(`DocumentScope.Valid.isFresh`).
-/

namespace AsteriusIdp.Policy

open Entitlements (AcrLevel AcrPolicy)

/-! ### What the rules can see of the snapshot -/

namespace ConditionalScope

variable {scope : ConditionalScope} {r₁ r₂ : EvaluationRequest} {t₁ t₂ : TrustedAccessContext}

/-- What is checked before any rule is evaluated. -/
def Admits (scope : ConditionalScope) (request : EvaluationRequest)
    (trusted : TrustedAccessContext) : Prop :=
  trusted.subject.any (· ≠ request.subject.id) = false ∧
    scope.applies trusted.client trusted.action = true ∧
    ∀ name ∈ scope.requiredFor request, trusted.availability name = .known

theorem evaluate_permit_iff {req : EvaluationRequest} {trusted : TrustedAccessContext}
    (h : req.context.trusted = some trusted) : (scope.evaluate req).permit = true ↔
      scope.Admits req trusted ∧ (scope.rules.evaluate req).permit = true := by
  unfold evaluate Admits
  simp only [h]
  split_ifs with hgrd
  · refine iff_of_false Bool.false_ne_true fun hadm => ?_
    obtain ⟨⟨hsj, happ, hkn⟩, -⟩ := hadm
    rcases hgrd with hsj' | happ' | ⟨name, hnm, hunk⟩
    · cases hsj.symm.trans hsj'
    · exact happ' happ
    · exact hunk (hkn name hnm)
  · push Not at hgrd
    obtain ⟨hsj, happ, hkn⟩ := hgrd
    exact ⟨fun hpm => ⟨⟨Bool.eq_false_of_not_eq_true hsj, happ, hkn⟩, hpm⟩,
      fun hadm => hadm.2⟩

/-- **A permit survives** a change of the snapshot that keeps what is required known, the assurance
it vouches for, and what the predicates of the rules say. -/
theorem evaluate_permit_of_snapshot
    (hrs : r₂ = { r₁ with context := { r₁.context with trusted := some t₂ } })
    (ht₁ : r₁.context.trusted = some t₁) (hbd : t₂ = { t₁ with facts := t₂.facts })
    (hkn : ∀ name, t₁.availability name = .known → t₂.availability name = .known)
    (hass : t₂.value .assurance = t₁.value .assurance)
    (htru : ∀ rule ∈ scope.rules.rules, ∀ c ∈ rule.when, ∀ p,
      .trusted p ∈ c.nodes → p.holds t₂ = p.holds t₁)
    (h : (scope.evaluate r₁).permit = true) : (scope.evaluate r₂).permit = true := by
  obtain ⟨⟨hsj, happ, hall⟩, hrul⟩ := (evaluate_permit_iff ht₁).1 h
  have ht₂ : r₂.context.trusted = some t₂ := by rw [hrs]
  have hsel : selects r₂ = selects r₁ := by
    rw [hrs]
    rfl
  have hrqd : scope.requiredFor r₂ = scope.requiredFor r₁ := by
    rw [requiredFor, requiredFor, hsel]
  have hev : scope.rules.evaluate r₂ = scope.rules.evaluate r₁ := by
    refine RuleSet.evaluate_congr fun rule hrl => ?_
    rw [matchesRequest_eq, matchesRequest_eq, hsel]
    cases hwn : rule.when with
    | none => rfl
    | some c =>
      rw [Option.all_some, Option.all_some, Condition.holds_eq_of_snapshot hrs ht₁ c
        (fun _ _ => hass) (htru rule hrl c hwn)]
  refine (evaluate_permit_iff ht₂).2 ⟨⟨?_, ?_, ?_⟩, hev ▸ hrul⟩
  · rw [hbd, hrs]
    exact hsj
  · rw [hbd]
    exact happ
  · intro name hnm
    exact hkn name (hall name (hrqd ▸ hnm))

/-- An authentication at `at_` is recent enough for every age the rules test. -/
def IsFresh (scope : ConditionalScope) (now at_ : ℤ) : Prop :=
  at_ ≤ now ∧ ∀ rule ∈ scope.rules.rules, ∀ c ∈ rule.when, ∀ limit,
    .trusted (.authenticationAgeAtMost limit) ∈ c.nodes → now - at_ ≤ seconds limit.toNat

theorem isFresh_self (scope : ConditionalScope) (now : ℤ) : scope.IsFresh now now := by
  refine ⟨le_rfl, fun rule _ c _ limit _ => ?_⟩
  unfold seconds
  omega

end ConditionalScope

/-- A document tests no age below a minute. -/
theorem DocumentScope.Valid.isFresh {ν : Type} [DecidableEq ν] {scope : DocumentScope ν}
    (h : scope.Valid) {now at_ : ℤ} (hpa : at_ ≤ now) (hmin : now - at_ ≤ seconds 60) :
    scope.IsFresh now at_ := by
  refine ⟨hpa, fun rule hrl c hc limit hnd => ?_⟩
  have hok := ((h.rules.valid rule hrl).when c hc).1 _ hnd
  have hlim : 60 ≤ limit.toNat := hok.1
  unfold seconds at hmin ⊢
  omega

/-! ### The remedy -/

/-- An observation that is known from `observedAt` until `expiresAt`. -/
def Fact.known (value : FactValue) (source : String) (observedAt expiresAt : ℤ) : Fact :=
  { availability := .known, value := some value, source, observedAt := some observedAt,
    expiresAt := some expiresAt }

/-- The snapshot after an authentication at the instant of the evaluation. -/
def TrustedAccessContext.hypothetical (trusted : TrustedAccessContext) (target : String) :
    TrustedAccessContext :=
  let now := trusted.evaluatedAt
  let expires := now + seconds 1
  { trusted with
    facts := fun name => match name with
      | .assurance => some (.known (.text target) "hypothetical_authentication" now expires)
      | .authenticationAge =>
        some (.known (.authenticationTime now) "hypothetical_authentication" now expires)
      | name => trusted.facts name }

/-- The request a remedy is tried on. -/
def EvaluationRequest.candidate (request : EvaluationRequest) (ladder : AcrPolicy)
    (target : String) (trusted : TrustedAccessContext) : EvaluationRequest :=
  { request with context := { request.context with
      acr := some target, ladder := ladder.levels.map (·.value),
      trusted := some (trusted.hypothetical target) } }

/-- The authentication context that would let a denied request in. -/
def DocumentScope.remedy {ν : Type} (scope : DocumentScope ν) (request : EvaluationRequest)
    (ladder : AcrPolicy) : Option String := do
  guard ¬(scope.evaluate request).permit
  let target ← scope.assuranceRemedy
  guard (ladder.canProduce target)
  let trusted ← request.context.trusted
  guard ¬(trusted.subject.isNone ∨ ¬scope.applies trusted.client trusted.action)
  let required := scope.requiredFor request
  guard ¬(.assurance ∉ required ∧ .authenticationAge ∉ required)
  guard ¬∃ name ∈ required, name ≠ .assurance ∧ name ≠ .authenticationAge ∧
    trusted.availability name ≠ .known
  guard (scope.evaluate (request.candidate ladder target trusted)).permit
  pure target

/-- `other` is `request` with the authentication a remedy asks for: the context `target` is a known
fact, proved recently enough, and the request says so; the other facts are unchanged. -/
structure SteppedUp (scope : ConditionalScope) (ladder : AcrPolicy) (target : String)
    (request other : EvaluationRequest) (before after : TrustedAccessContext) : Prop where
  trusted : request.context.trusted = some before
  request_eq : other = { request with context := { request.context with
    acr := some target, ladder := ladder.levels.map (·.value), trusted := some after } }
  snapshot_eq : after = { before with facts := after.facts }
  facts_eq : ∀ name, name ≠ .assurance → name ≠ .authenticationAge →
    after.facts name = before.facts name
  assurance : after.value .assurance = some (.text target)
  authenticationAge : ∃ at_, after.value .authenticationAge = some (.authenticationTime at_) ∧
    scope.IsFresh after.evaluatedAt at_

namespace TrustedAccessContext

variable {trusted : TrustedAccessContext} {name : FactName} {value : FactValue} {target : String}

/-- A fact that has a value is known. -/
theorem availability_of_value (h : trusted.value name = some value) :
    trusted.availability name = .known := by
  by_contra hunk
  rw [TrustedAccessContext.value, if_neg hunk] at h
  cases h

/-- The value of a fact has the shape its name calls for. -/
theorem validValue_of_value (h : trusted.value name = some value) :
    trusted.validValue name (some value) = true := by
  have hkn := availability_of_value h
  rw [TrustedAccessContext.value, if_pos hkn] at h
  obtain ⟨_, hfa, hval⟩ := Option.bind_eq_some_iff.1 h
  unfold availability at hkn
  simp only [hfa, hval] at hkn
  split_ifs at hkn with hat hok
  · exact absurd hkn hat
  · exact hok.1

/-- The hypothesis is within its window, so it is known when its value is well shaped. -/
theorem value_of_known {observed expires : ℤ} {source : String}
    (hfa : trusted.facts name = some (.known value source observed expires))
    (hobs : observed ≤ trusted.evaluatedAt) (hexp : trusted.evaluatedAt < expires)
    (hok : trusted.validValue name (some value) = true)
    (hso : source ≠ "" ∧ source.utf8ByteSize ≤ 128) : trusted.value name = some value := by
  have hat : (Fact.known value source observed expires).at_ trusted.evaluatedAt = .known := by
    simp [Fact.at_, Fact.known, hobs, hexp]
  have hkn : trusted.availability name = .known := by
    unfold availability
    simp only [hfa, hat, ne_eq, not_true_eq_false, if_false]
    exact if_pos ⟨hok, hso⟩
  rw [TrustedAccessContext.value, if_pos hkn, hfa]
  rfl

/-- The hypothesis supposes a second. -/
theorem evaluatedAt_lt (trusted : TrustedAccessContext) :
    trusted.evaluatedAt < trusted.evaluatedAt + seconds 1 := by
  unfold seconds
  omega

theorem value_assurance_hypothetical
    (hok : trusted.validValue .assurance (some (.text target)) = true) :
    (trusted.hypothetical target).value .assurance = some (.text target) :=
  value_of_known rfl le_rfl trusted.evaluatedAt_lt hok (by decide)

theorem value_age_hypothetical : (trusted.hypothetical target).value .authenticationAge =
    some (.authenticationTime trusted.evaluatedAt) :=
  value_of_known rfl le_rfl trusted.evaluatedAt_lt (decide_eq_true le_rfl) (by decide)

end TrustedAccessContext

/-- An age predicate whose limit is not exceeded holds. -/
theorem TrustedPredicate.holds_age {trusted : TrustedAccessContext} {limit : UInt32} {at_ : ℤ}
    (h : trusted.value .authenticationAge = some (.authenticationTime at_))
    (hpa : at_ ≤ trusted.evaluatedAt) (hlim : trusted.evaluatedAt - at_ ≤ seconds limit.toNat) :
    (TrustedPredicate.authenticationAgeAtMost limit).holds trusted = true := by
  have hval : trusted.value (TrustedPredicate.authenticationAgeAtMost limit).fact =
      some (.authenticationTime at_) := h
  unfold TrustedPredicate.holds
  rw [hval]
  exact decide_eq_true ⟨by omega, hlim⟩

namespace SteppedUp

variable {scope : ConditionalScope} {ladder : AcrPolicy} {target : String}
  {req other : EvaluationRequest} {before after : TrustedAccessContext} {name : FactName}

section

variable (h : SteppedUp scope ladder target req other before after)
include h

/-- Away from the authentication, the step-up and the hypothesis have the same facts. -/
theorem agreesOn (hass : name ≠ .assurance) (hage : name ≠ .authenticationAge) :
    (before.hypothetical target).AgreesOn {name} after := by
  refine ⟨h.snapshot_eq, fun name' hnm' => ?_⟩
  obtain rfl := Finset.mem_singleton.1 hnm'
  rw [h.facts_eq name' hass hage]
  cases name' <;> first | rfl | contradiction

theorem availability_eq (hkn : (before.hypothetical target).availability name = .known) :
    after.availability name = .known := by
  by_cases hass : name = .assurance
  · subst hass
    exact TrustedAccessContext.availability_of_value h.assurance
  · by_cases hage : name = .authenticationAge
    · subst hage
      obtain ⟨_, hat, -⟩ := h.authenticationAge
      exact TrustedAccessContext.availability_of_value hat
    · exact ((h.agreesOn hass hage).availability_eq (Finset.mem_singleton_self _)).trans hkn

theorem value_assurance_eq :
    after.value .assurance = (before.hypothetical target).value .assurance := by
  have hok : before.validValue .assurance (some (.text target)) = true :=
    (TrustedAccessContext.validValue_of_value h.assurance :)
  rw [h.assurance, TrustedAccessContext.value_assurance_hypothetical hok]

/-- The predicates of the rules say the same after the step-up as under the hypothesis. -/
theorem holds_eq {rule : Rule} (hrl : rule ∈ scope.rules.rules) {c : Condition} (hc : c ∈ rule.when)
    {p : TrustedPredicate} (hnd : .trusted p ∈ c.nodes) :
    p.holds after = p.holds (before.hypothetical target) := by
  cases p with
  | authenticationAgeAtMost limit =>
    obtain ⟨_, hat, hpa, hfr⟩ := h.authenticationAge
    rw [TrustedPredicate.holds_age hat hpa (hfr rule hrl c hc limit hnd),
      TrustedPredicate.holds_age TrustedAccessContext.value_age_hypothetical le_rfl]
    exact (scope.isFresh_self before.evaluatedAt).2 rule hrl c hc limit hnd
  | sensitivity | networkZone | deviceCompliance =>
    refine (h.agreesOn ?_ ?_).holds_eq (Finset.mem_singleton_self _) <;>
      simp [TrustedPredicate.fact]

/-- The step-up is let in when the hypothesis is. -/
theorem evaluate_permit
    (hpm : (scope.evaluate (req.candidate ladder target before)).permit = true) :
    (scope.evaluate other).permit = true := by
  have htru : (req.candidate ladder target before).context.trusted =
      some (before.hypothetical target) := rfl
  exact ConditionalScope.evaluate_permit_of_snapshot h.request_eq htru h.snapshot_eq
    (fun _ => h.availability_eq) h.value_assurance_eq
    (fun _ hrl _ hc _ => h.holds_eq hrl hc) hpm

end

end SteppedUp

/-- What a remedy was found from. -/
theorem DocumentScope.remedy_eq_some {ν : Type} {scope : DocumentScope ν}
    {req : EvaluationRequest} {ladder : AcrPolicy} {target : String} :
    scope.remedy req ladder = some target ↔ (scope.evaluate req).permit = false ∧
    scope.assuranceRemedy = some target ∧ ladder.canProduce target = true ∧
    ∃ trusted, req.context.trusted = some trusted ∧ trusted.subject.isSome = true ∧
    scope.applies trusted.client trusted.action = true ∧
    (.assurance ∉ scope.requiredFor req →
      .authenticationAge ∈ scope.requiredFor req) ∧
      (∀ name ∈ scope.requiredFor req, name ≠ .assurance → name ≠ .authenticationAge →
        trusted.availability name = .known) ∧
        (scope.evaluate (req.candidate ladder target trusted)).permit = true := by
  unfold DocumentScope.remedy
  simp only [Option.bind_eq_bind, Option.bind_eq_some_iff, Option.guard_eq_some', exists_const,
    Option.pure_def, Option.some.injEq, Bool.not_eq_true, Bool.not_eq_false, not_or, not_not,
    not_exists, not_and, Option.isNone_eq_false_iff, and_assoc]
  grind

/-- **A remedy helps.**  The scope that names it denies the request now, and permits every request
that differs from it only by the authentication the remedy asks for.  That may be as old as the
rules allow; if the scope was read from a document, at least a minute. -/
theorem DocumentScope.remedy_helps {ν : Type} [DecidableEq ν] {scope : DocumentScope ν}
    {request : EvaluationRequest} {ladder : AcrPolicy} {target : String}
    (h : scope.remedy request ladder = some target) :
    (scope.evaluate request).permit = false ∧
      (∀ other before after,
        SteppedUp scope.toConditionalScope ladder target request other before after →
          (scope.evaluate other).permit = true) ∧
      ∀ format v, DocumentScope.parse format v = .ok scope → ∀ now at_ : ℤ, at_ ≤ now →
        now - at_ ≤ seconds 60 → scope.IsFresh now at_ := by
  obtain ⟨hden, -, -, _, htru, -, -, -, -, hca⟩ := remedy_eq_some.1 h
  refine ⟨hden, fun other before after hst => ?_, fun format v hpar now at_ => ?_⟩
  · cases htru.symm.trans hst.trusted
    exact hst.evaluate_permit hca
  · exact (DocumentScope.valid_of_parse hpar).isFresh

/-- Passwords, then passkeys. -/
def passkeyLadder : AcrPolicy :=
  { levels := [⟨"pwd", [.password]⟩, ⟨"phr", [.passkey]⟩], amrInIdToken := true }

/-- A scope that asks for a passkey within five minutes. -/
def recentPasskey : DocumentScope String :=
  { clients := {"app"}
    actions := {"authorize"}
    requiredFacts := ∅
    rules := ⟨[{ id := "r", effect := .permit, subjectType := none, resourceType := none,
                 actions := ∅, reasonAdmin := none, reasonUser := none, acrValues := [],
                 when := some (.all [.acrAtLeast "phr",
                   .trusted (.authenticationAgeAtMost 300)]) }]⟩
    mode := .active
    id := "passkeys"
    assuranceRemedy := some "phr"
    networkZones := [] }

/-- The facts of a session whose context was proved at `at_`. -/
def sessionFacts (acr : String) (at_ : ℤ) : FactName → Option Fact
  | .assurance => some (.known (.text acr) "session" 0 20)
  | .authenticationAge => some (.known (.authenticationTime at_) "session" 0 20)
  | _ => none

/-- A request of `app` in such a session. -/
def sessionRequest (acr : String) (at_ : ℤ) : EvaluationRequest :=
  let request := ConditionalScope.requestWith (sessionFacts acr at_)
  { request with context := { request.context with acr := some acr, ladder := ["pwd", "phr"] } }

/-- A password session is sent to the passkey ceremony, and let in after it. -/
theorem remedy_helps_passkey :
    recentPasskey.remedy (sessionRequest "pwd" 0) passkeyLadder = some "phr" ∧
    (recentPasskey.evaluate (sessionRequest "pwd" 0)).permit = false ∧
      (recentPasskey.evaluate (sessionRequest "phr" 7)).permit = true := by
  have hrem : recentPasskey.remedy (sessionRequest "pwd" 0) passkeyLadder = some "phr" := by
    decide +kernel
  obtain ⟨hden, hhel, -⟩ := DocumentScope.remedy_helps hrem
  refine ⟨hrem, hden, hhel _ _ _
    { trusted := rfl, request_eq := rfl, snapshot_eq := rfl, facts_eq := ?_, assurance := by decide,
      authenticationAge := ⟨7, by decide, by decide, ?_⟩ }⟩
  · intro name hass hage
    cases name <;> first | rfl | contradiction
  · intro rule hrl c hc limit hnd
    obtain rfl := List.mem_singleton.1 hrl
    cases hc
    have hlim : limit = 300 := by simpa [Condition.nodes] using hnd
    subst hlim
    decide

end AsteriusIdp.Policy
