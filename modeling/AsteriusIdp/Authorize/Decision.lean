import AsteriusIdp.Authorize.Requirements
import AsteriusIdp.Entitlements.Store

/-!
# What has to happen before a request is answered

`decide` says whether a request can be answered from the session the browser brings, or the user
has to sign in, step up or consent first.  Three selections over the tenant's ladder have to fit
together for a step-up to end: `sessionSatisfies` compares the session's `acr` with the required
values as strings and then its methods with the level, `AcrPolicy.stepUpTarget` picks the weakest
required level, and `AcrPolicy.assign` writes the strongest required level that was reached.

* `Authorize.decide_eq_stepUp`: when the decision is a step-up.
* `Entitlements.AcrPolicy.assign_of_met`: what is assigned once a required level is reached.
* `Authorize.decide_stepUp_resolves`: one ceremony ends a step-up.

There is nothing to step up to when the session has done a required level's methods already and
only its `acr` names another level (`stepUp_alias`).
-/

namespace AsteriusIdp

open Fallible

/-! ### The ladder -/

namespace Entitlements

/-- Levels of a policy. -/
def maxLevels : ℕ := 32

/-- Why levels are refused. -/
inductive AcrPolicyError where
  | duplicate (value : String)
  | tooManyLevels
  deriving DecidableEq

namespace AcrPolicy

/-- The loop that looks for a value that appears twice. -/
def checkDistinct : List AcrLevel → List String → Except AcrPolicyError Unit
  | [], _ => .ok ()
  | level :: levels, seen => do
    refuseIf (level.value ∈ seen) (.duplicate level.value)
    checkDistinct levels (level.value :: seen)

/-- A policy over the levels, weakest first. -/
def new (levels : List AcrLevel) : Except AcrPolicyError AcrPolicy := do
  refuseIf (maxLevels < levels.length) .tooManyLevels
  checkDistinct levels []
  pure { levels, amrInIdToken := true }

/-- Whether ID tokens carry `amr`. -/
def releasingAmr (policy : AcrPolicy) (release : Bool) : AcrPolicy :=
  { policy with amrInIdToken := release }

/-- The strongest level an authentication reached. -/
def achieved (policy : AcrPolicy) (used : List AuthenticationMethod) : Option AcrLevel :=
  policy.levels.reverse.find? (·.isMetBy used)

/-- The strongest of the requested levels that was reached. -/
def strongestMet (policy : AcrPolicy) (requested : List String)
    (used : List AuthenticationMethod) : Option AcrLevel :=
  policy.levels.reverse.find? fun level => requested.any (· = level.value) && level.isMetBy used

/-- The `acr` to record for an authentication. -/
def assign (policy : AcrPolicy) (used : List AuthenticationMethod)
    (essential voluntary : List String) : Option String :=
  (((policy.strongestMet essential used).or (policy.strongestMet voluntary used)).or
    (policy.achieved used)).map (·.value)

/-- Some level asked for exists. -/
def canSatisfy (policy : AcrPolicy) (requested : List String) : Bool :=
  requested = [] || requested.any policy.canProduce

/-- What a step-up would have to produce: the weakest requested level, unless one was reached. -/
def stepUpTarget (policy : AcrPolicy) (requested : List String)
    (used : List AuthenticationMethod) : Option AcrLevel :=
  if (policy.strongestMet requested used).isSome then none
  else policy.levels.find? fun level => requested.any (· = level.value)

/-- No two levels have one name. -/
def Distinct (policy : AcrPolicy) : Prop := (policy.levels.map (·.value)).Nodup

theorem nodup_of_checkDistinct {levels : List AcrLevel} {seen : List String} {u : Unit}
    (h : checkDistinct levels seen = .ok u) :
    (levels.map (·.value)).Nodup ∧ ∀ level ∈ levels, level.value ∉ seen := by
  induction levels generalizing seen with
  | nil => simp
  | cons level levels ih =>
    simp only [checkDistinct, bind_ok, refuseIf_ok, exists_const] at h
    obtain ⟨hfr, hrs⟩ := h
    obtain ⟨hnod, hsn⟩ := ih hrs
    refine ⟨List.nodup_cons.2 ⟨fun hmem => ?_, hnod⟩, List.forall_mem_cons.2 ⟨hfr, ?_⟩⟩
    · obtain ⟨level', hlevel', hvalue⟩ := List.mem_map.1 hmem
      exact hsn level' hlevel' (hvalue ▸ List.mem_cons_self)
    · exact fun level' hlevel' hmem => hsn level' hlevel' (List.mem_cons_of_mem _ hmem)

/-- Every policy that can be built is distinct. -/
theorem distinct_of_new {levels : List AcrLevel} {policy : AcrPolicy}
    (h : new levels = .ok policy) (release : Bool) : (policy.releasingAmr release).Distinct := by
  simp only [new, bind_ok, refuseIf_ok, pure_ok, exists_const] at h
  obtain ⟨-, _, hdistinct, rfl⟩ := h
  exact (nodup_of_checkDistinct hdistinct).1

section Selection

variable {policy : AcrPolicy} {requested essential : List String}
  {used : List AuthenticationMethod} {level : AcrLevel}

theorem strongestMet_eq_some (h : policy.strongestMet requested used = some level) :
    level ∈ policy.levels ∧ level.value ∈ requested ∧ level.isMetBy used = true := by
  have hmem := List.mem_of_find?_eq_some h
  have hmet := List.find?_some h
  simp only [Bool.and_eq_true, List.any_eq_true, decide_eq_true_eq, exists_eq_right] at hmet
  exact ⟨List.mem_reverse.1 hmem, hmet⟩

theorem isSome_strongestMet (hlevel : level ∈ policy.levels) (hvalue : level.value ∈ requested)
    (hmet : level.isMetBy used = true) : (policy.strongestMet requested used).isSome = true := by
  rw [strongestMet, List.find?_isSome]
  refine ⟨level, List.mem_reverse.2 hlevel, ?_⟩
  simp [hvalue, hmet]

/-- What a level is called is enough to find it. -/
theorem level_value (h : policy.Distinct) (hlevel : level ∈ policy.levels) :
    policy.level level.value = some level := by
  have hso : (policy.level level.value).isSome = true :=
    List.find?_isSome.2 ⟨level, hlevel, by simp⟩
  obtain ⟨level', hlevel'⟩ := Option.isSome_iff_exists.1 hso
  have hvalue : level'.value = level.value := by simpa using List.find?_some hlevel'
  rw [hlevel', List.inj_on_of_nodup_map h (List.mem_of_find?_eq_some hlevel') hlevel hvalue]

/-- **Once a required level is reached**, the assigned `acr` is required and names a level that was
reached. -/
theorem assign_of_met (hdistinct : policy.Distinct) (hlevel : level ∈ policy.levels)
    (hvalue : level.value ∈ essential) (hmet : level.isMetBy used = true)
    (voluntary : List String) :
    ∃ assigned : AcrLevel, policy.assign used essential voluntary = some assigned.value ∧
    assigned.value ∈ essential ∧ policy.level assigned.value = some assigned ∧
    assigned.isMetBy used = true := by
  obtain ⟨assigned, hass⟩ :=
    Option.isSome_iff_exists.1 (isSome_strongestMet hlevel hvalue hmet)
  obtain ⟨hmem, hess, hre⟩ := strongestMet_eq_some hass
  refine ⟨assigned, ?_, hess, level_value hdistinct hmem, hre⟩
  rw [assign, hass]
  rfl

/-- A target is a required level. -/
theorem stepUpTarget_eq_some (h : policy.stepUpTarget requested used = some level) :
    level ∈ policy.levels ∧ level.value ∈ requested := by
  unfold stepUpTarget at h
  split_ifs at h
  exact ⟨List.mem_of_find?_eq_some h, by simpa using List.find?_some h⟩

/-- Where something required can be produced, there is a target unless it was reached. -/
theorem isSome_stepUpTarget (hne : requested ≠ []) (hpro : policy.canSatisfy requested = true)
    (hunm : policy.strongestMet requested used = none) :
    (policy.stepUpTarget requested used).isSome = true := by
  have hpr : ∃ value ∈ requested, policy.canProduce value = true := by
    simpa [canSatisfy, hne] using hpro
  obtain ⟨value, hvalue, hlevel⟩ := hpr
  obtain ⟨level, hlevel⟩ := Option.isSome_iff_exists.1 hlevel
  have hnm : level.value = value := by simpa using List.find?_some hlevel
  rw [stepUpTarget, hunm, if_neg (by simp), List.find?_isSome]
  exact ⟨level, List.mem_of_find?_eq_some hlevel, by simpa [hnm] using hvalue⟩

end Selection

end AcrPolicy

end Entitlements

/-! ### The decision -/

namespace Authorize

open Entitlements (AcrPolicy AcrLevel)

/-- Why a request cannot be answered. -/
inductive Unmet where
  | loginRequired
  | consentRequired
  | interactionRequired
  | accountSelectionRequired
  | unmetAuthenticationRequirements
  deriving DecidableEq

/-- What has to happen before a request can be answered. -/
inductive Interaction where
  | silent
  | login
  | selectAccount
  | stepUp
  | consent
  | register
  | refuse (reason : Unmet)
  deriving DecidableEq

/-- Has the user agreed to what the request asks for? -/
inductive Consent where
  | granted
  | required
  deriving DecidableEq

/-- What the decision reads of a session. -/
structure AuthenticatedSession where
  authenticatedAt : ℤ
  acr : Option String
  amr : List AuthenticationMethod
  deriving DecidableEq

/-- What the browser brings: nothing usable, or a session with the subject the client would see. -/
inductive SessionState where
  | none
  | active (session : AuthenticatedSession) (subject : Option String) (consent : Consent)

/-- What the tenant has set. -/
structure DecisionPolicy where
  accountChooser : Bool

/-- The sign-in is older than asked for. -/
def AuthenticatedSession.needsReauthentication (session : AuthenticatedSession)
    (maxAge : Option UInt32) (now : ℤ) : Bool :=
  maxAge.any fun maxAge => seconds maxAge.toNat < now - session.authenticatedAt

end Authorize

namespace Entitlements.AcrPolicy

open Authorize (AuthenticatedSession)

/-- The level is one asked for. -/
def satisfiedBy (achieved : Option String) (requested : List String) : Bool :=
  requested = [] || achieved.any fun achieved => requested.any (· = achieved)

/-- The recorded `acr` is one of the requested names, and its level was reached by the recorded
methods. -/
def sessionSatisfies (policy : AcrPolicy) (session : AuthenticatedSession)
    (requested : List String) : Bool :=
  requested = [] || (satisfiedBy session.acr requested &&
    (session.acr.bind policy.level).any (·.isMetBy session.amr))

end Entitlements.AcrPolicy

namespace Authorize

open Entitlements (AcrPolicy AcrLevel)

/-- What is outstanding when no page may be shown. -/
def silentRefusal (present wrongSubject stale acrMet : Bool) (consent : Consent)
    (policy : DecisionPolicy) : Option Unmet :=
  if ¬present then some .loginRequired
  else if wrongSubject then
    some (if policy.accountChooser then .accountSelectionRequired else .loginRequired)
  else if stale then some .loginRequired
  else if ¬acrMet then some .interactionRequired
  else match consent with
    | .granted => none
    | .required => some .consentRequired

namespace SessionState

/-- The session, if any. -/
def session : SessionState → Option AuthenticatedSession
  | .none => Option.none
  | .active session _ _ => some session

/-- The user, if any. -/
def subject : SessionState → Option String
  | .none => Option.none
  | .active _ subject _ => subject

/-- What was agreed to. -/
def consent : SessionState → Consent
  | .none => .required
  | .active _ _ consent => consent

/-- A session about somebody else than the request names. -/
def wrongSubject (state : SessionState) (requirements : Requirements) : Bool :=
  match requirements.hintedSubject, state.session with
  | some hinted, some _ => state.subject ≠ some hinted
  | _, _ => false

/-- `prompt=login` and an exceeded `max_age` are the same demand. -/
def mustReauthenticate (state : SessionState) (requirements : Requirements) (now : ℤ) : Bool :=
  state.session.any fun active =>
    .login ∈ requirements.prompts || active.needsReauthentication requirements.maxAge now

/-- The essential level is reached. -/
def acrMet (state : SessionState) (requirements : Requirements) (acr : AcrPolicy) : Bool :=
  state.session.elim (AcrPolicy.satisfiedBy Option.none requirements.essentialAcr) fun session =>
    acr.sessionSatisfies session requirements.essentialAcr

end SessionState

/-- Decides what happens next. -/
def decide (requirements : Requirements) (state : SessionState) (policy : DecisionPolicy)
    (acr : AcrPolicy) (now : ℤ) : Interaction :=
  -- what cannot be met is not made meetable by asking the user anything
  if ¬acr.canSatisfy requirements.essentialAcr then .refuse .unmetAuthenticationRequirements
  else if Prompt.create ∈ requirements.prompts then .register
  else
    let wrongSubject := state.wrongSubject requirements
    let mustReauthenticate := state.mustReauthenticate requirements now
    let acrMet := state.acrMet requirements acr
    if Prompt.none ∈ requirements.prompts then
      match silentRefusal state.session.isSome wrongSubject mustReauthenticate acrMet
        state.consent policy with
      | some unmet => .refuse unmet
      | none => .silent
    else if state.session.isNone ∨ mustReauthenticate ∨ wrongSubject ∨
    Prompt.selectAccount ∈ requirements.prompts then
      if policy.accountChooser ∧ Prompt.selectAccount ∈ requirements.prompts then .selectAccount
      else .login
    else if ¬acrMet then .stepUp
    else if Prompt.consent ∈ requirements.prompts ∨ state.consent = .required then .consent
    else .silent

/-- **When the decision is a step-up**: the tenant can produce what is required, and there is a
session that does not satisfy it. -/
theorem decide_eq_stepUp {requirements : Requirements} {state : SessionState}
    {policy : DecisionPolicy} {acr : AcrPolicy} {now : ℤ}
    (h : decide requirements state policy acr now = .stepUp) :
    acr.canSatisfy requirements.essentialAcr = true ∧ ∃ session subject consent,
      state = .active session subject consent ∧
      acr.sessionSatisfies session requirements.essentialAcr = false := by
  unfold decide at h
  simp only at h
  split_ifs at h with hpr hcre hno hlog hcho hunm
  · split at h <;> cases h
  · refine ⟨hpr, ?_⟩
    cases state with
    | none => exact absurd (.inl rfl) hlog
    | active session subject consent =>
      exact ⟨session, subject, consent, rfl, Bool.eq_false_of_not_eq_true hunm⟩

/-! ### The ceremony -/

/-- The acr that is about to be recorded is one that was required, if any was. -/
def essentialSatisfied (acr : Option String) (requested : Requirements) : Bool :=
  requested.essentialAcr = [] || acr.any fun value => requested.essentialAcr.any (· = value)

/-- Everything the person has done, in the order it first happened. -/
def merged (already justUsed : List AuthenticationMethod) : List AuthenticationMethod :=
  justUsed.foldl (fun methods method => if method ∈ methods then methods else methods ++ [method])
    (already.filter (· ≠ .existingSession))

/-- A step-up onto the session: with the methods that were proved now, and those of the session
unless only fresh ones count, an `acr` is assigned for the same request.  Nothing is written when
that is not what was required. -/
def establish (acr : AcrPolicy) (freshAssurance : Bool) (session : AuthenticatedSession)
    (proved : List AuthenticationMethod) (requested : Requirements) (now : ℤ) :
    Option AuthenticatedSession :=
  let methods := if freshAssurance then proved else merged session.amr proved
  let assigned := acr.assign methods requested.essentialAcr requested.acrValues
  if essentialSatisfied assigned requested then
    some { authenticatedAt := now, acr := assigned, amr := methods }
  else none

theorem mem_merged {already justUsed : List AuthenticationMethod} {method : AuthenticationMethod} :
    method ∈ merged already justUsed ↔
      method ∈ already ∧ method ≠ .existingSession ∨ method ∈ justUsed := by
  have hfo : ∀ methods, method ∈ justUsed.foldl
      (fun methods method => if method ∈ methods then methods else methods ++ [method]) methods ↔
        method ∈ methods ∨ method ∈ justUsed := by
    induction justUsed with
    | nil => simp
    | cons used justUsed ih =>
      intro methods
      rw [List.foldl_cons]
      split_ifs
      · grind
      · grind
  rw [merged, hfo, List.mem_filter, decide_eq_true_eq]

/-- The session carries one of the required values, and no later decision about the same request
asks for another step-up. -/
def Resolved (requested : Requirements) (acr : AcrPolicy) (session : AuthenticatedSession) : Prop :=
  (∃ value ∈ requested.essentialAcr, session.acr = some value) ∧
    ∀ subject consent policy now,
      decide requested (.active session subject consent) policy acr now ≠ .stepUp

section Resolve

variable {acr : AcrPolicy} {requested : Requirements} {session : AuthenticatedSession}
  {level : AcrLevel} {methods proved : List AuthenticationMethod}

section

variable (hdistinct : acr.Distinct) (hlevel : level ∈ acr.levels)
  (hvalue : level.value ∈ requested.essentialAcr)
include hdistinct hlevel hvalue

/-- A session with the assigned `acr` is resolved once a required level is reached. -/
theorem resolved_of_met (hmet : level.isMetBy methods = true) (now : ℤ) : Resolved requested acr
      { authenticatedAt := now
        acr := acr.assign methods requested.essentialAcr requested.acrValues
        amr := methods } := by
  obtain ⟨assigned, hass, hess, hfd, hre⟩ :=
    AcrPolicy.assign_of_met hdistinct hlevel hvalue hmet requested.acrValues
  refine ⟨⟨assigned.value, hess, hass⟩, fun subject consent policy now hdec => ?_⟩
  obtain ⟨-, session', _, _, hst, huns⟩ := decide_eq_stepUp hdec
  obtain rfl : _ = session' := (SessionState.active.inj hst).1
  refine Bool.false_ne_true (huns.symm.trans ?_)
  simp [AcrPolicy.sessionSatisfies, AcrPolicy.satisfiedBy, hass, hfd, hre, hess]

/-- Proving the methods of a required level is enough. -/
theorem exists_establish (hpr : level.methods ⊆ proved)
    (freshAssurance : Bool) (now : ℤ) : ∃ session',
      establish acr freshAssurance session proved requested now = some session' ∧
      Resolved requested acr session' := by
  have hmet : level.isMetBy (if freshAssurance then proved else merged session.amr proved) =
      true := by
    simp only [AcrLevel.isMetBy, List.all_eq_true, List.contains_iff_mem]
    intro _ hmt
    split_ifs
    · exact hpr hmt
    · exact mem_merged.2 (.inr (hpr hmt))
  have hrsv := resolved_of_met hdistinct hlevel hvalue hmet now
  refine ⟨_, if_pos ?_, hrsv⟩
  obtain ⟨⟨_, hess, hass⟩, -⟩ := hrsv
  simp only at hass
  simp [essentialSatisfied, hass, hess]

end

end Resolve

/-- **A step-up ends after one ceremony.**  When the decision is a step-up there is a session, and
either there is a target, and whoever proves its methods is recorded with a required `acr` and not
asked again; or the session has done the methods of a required level already, and assigning its
`acr` anew is enough. -/
theorem decide_stepUp_resolves {acr : AcrPolicy} (hdistinct : acr.Distinct)
    {requested : Requirements} {state : SessionState} {policy : DecisionPolicy} {now : ℤ}
    (h : decide requested state policy acr now = .stepUp) :
    ∃ session subject consent, state = .active session subject consent ∧
    ((∃ target, acr.stepUpTarget requested.essentialAcr session.amr = some target ∧
        ∀ freshAssurance proved later, target.methods ⊆ proved → ∃ session',
          establish acr freshAssurance session proved requested later = some session' ∧
          Resolved requested acr session') ∨
      (acr.strongestMet requested.essentialAcr session.amr).isSome = true ∧
        ∀ later, Resolved requested acr
          { authenticatedAt := later
            acr := acr.assign session.amr requested.essentialAcr requested.acrValues
            amr := session.amr }) := by
  obtain ⟨hpr, session, subject, consent, rfl, huns⟩ := decide_eq_stepUp h
  refine ⟨session, subject, consent, rfl, ?_⟩
  have hrqd : requested.essentialAcr ≠ [] := by
    intro hnil
    simp [AcrPolicy.sessionSatisfies, hnil] at huns
  cases hmet : acr.strongestMet requested.essentialAcr session.amr with
  | none =>
    obtain ⟨target, htgt⟩ :=
      Option.isSome_iff_exists.1 (AcrPolicy.isSome_stepUpTarget hrqd hpr hmet)
    obtain ⟨hlevel, hvalue⟩ := AcrPolicy.stepUpTarget_eq_some htgt
    refine .inl ⟨target, htgt, fun freshAssurance proved later hprov => ?_⟩
    exact exists_establish hdistinct hlevel hvalue hprov freshAssurance later
  | some =>
    obtain ⟨hlevel, hvalue, hre⟩ := AcrPolicy.strongestMet_eq_some hmet
    exact .inr ⟨rfl, resolved_of_met hdistinct hlevel hvalue hre⟩

/-- Two names for the passkey ceremony. -/
def aliasLadder : AcrPolicy :=
  { levels := [⟨"pwd", [.password]⟩, ⟨"phr", [.passkey]⟩, ⟨"urn:passkey", [.passkey]⟩]
    amrInIdToken := true }

/-- A request that requires `phr`. -/
def requirePhr : Requirements :=
  { prompts := ∅, maxAge := none, hintedSubject := none, acrValues := [], essentialAcr := ["phr"] }

/-- A sign-in with a password. -/
def passwordSession : AuthenticatedSession :=
  { authenticatedAt := 0, acr := some "pwd", amr := [.password] }

/-- A session that has done the passkey ceremony, recorded under its other name. -/
def aliasSession : AuthenticatedSession :=
  { authenticatedAt := 0, acr := some "urn:passkey", amr := [.passkey] }

theorem stepUp_resolves_password :
    decide requirePhr (.active passwordSession none .granted) ⟨false⟩ aliasLadder 1 = .stepUp ∧
    ∃ target, aliasLadder.stepUpTarget ["phr"] [.password] = some target ∧
    ∃ session', establish aliasLadder false passwordSession target.methods requirePhr 2 =
      some session' ∧ Resolved requirePhr aliasLadder session' := by
  have hdec : decide requirePhr (.active passwordSession none .granted) ⟨false⟩ aliasLadder 1 =
      .stepUp := by decide +kernel
  have hnew : AcrPolicy.new aliasLadder.levels = .ok aliasLadder := by decide +kernel
  have hdistinct : aliasLadder.Distinct := AcrPolicy.distinct_of_new hnew true
  obtain ⟨_, _, _, hst, hres⟩ := decide_stepUp_resolves hdistinct hdec
  obtain ⟨rfl, -, -⟩ := SessionState.active.inj hst
  rcases hres with ⟨target, htgt, hall⟩ | ⟨hmet, -⟩
  · exact ⟨hdec, target, htgt, hall false target.methods 2 (List.Subset.refl _)⟩
  · exact absurd hmet (by decide)

/-- There is no target for a session that has done a required level under another name. -/
theorem stepUp_alias : AcrPolicy.new aliasLadder.levels = .ok aliasLadder ∧
    decide requirePhr (.active aliasSession none .granted) ⟨false⟩ aliasLadder 1 = .stepUp ∧
    aliasLadder.stepUpTarget requirePhr.essentialAcr aliasSession.amr = none := by
  decide +kernel

end Authorize

end AsteriusIdp
