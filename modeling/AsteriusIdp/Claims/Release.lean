import AsteriusIdp.Claims.RoundTrip
import AsteriusIdp.Domain.Grant
import AsteriusIdp.Time

/-!
# Releasing claims

What a client is told about a user: the claims that its scopes stand for, at the UserInfo endpoint,
and those that the claims request of the grant asks for, each where it is asked for (`resolve`).
Transformed claims are added under their aliases and rules take claims out again or abort the
answer (`AscRequest.apply`).

Everything that is read of a user is the value of a claim that was asked for (`User.project`) or
the result of a transformation that was asked for (`Definition.result`), so two users with the
same values and results get the same answer (`resolveForGrant_spec`).
-/

namespace AsteriusIdp

open Fallible Json Entries ClaimsRequest

/-- What is released of a user.  The claim set holds the values; who asserted them is not read. -/
structure User where
  email : Option String
  emailVerified : Bool
  claims : Entries ClaimName Json
  updatedAt : ℤ

/-! ### The value of a claim -/

/-- The languages a client prefers, the most preferred one first. -/
abbrev ClaimsLocales := List String

namespace ClaimsLocales

/-- The most languages. -/
def max : ℕ := 8

/-- What does not look like a language tag is dropped. -/
def fromTags (tags : List String) : ClaimsLocales := (tags.filter isLanguageTag).take max

end ClaimsLocales

/-- The part of a language tag before its first dash. -/
def primarySubtag (tag : String) : String := String.ofList (tag.toList.takeWhile (· ≠ '-'))

/-- The spellings of a claim, untagged and tagged. -/
def variants (claims : Entries ClaimName Json) (base : String) : Entries ClaimName Json :=
  claims.filter fun e => e.1.base = base

/-- The first spelling whose tag is accepted. -/
def findVariant (claims : Entries ClaimName Json) (base : String) (accepts : String → Bool) :
    Option Json :=
  ((variants claims base).find? fun e => (languageTag e.1.raw).any accepts).map Prod.snd

/-- Choose between the spellings of a claim.  A request that names a language gets this one or
nothing. -/
def select (claims : Entries ClaimName Json) (name : ClaimName) (locales : ClaimsLocales) :
    Option Json :=
  if (languageTag name.raw).isSome then Entries.lookup claims name
  else
    ((locales.findSome? fun wanted =>
        findVariant claims name.base fun tag => Text.eqIgnoreCase tag wanted).or
      (locales.findSome? fun wanted =>
        findVariant claims name.base fun tag =>
          Text.eqIgnoreCase (primarySubtag tag) (primarySubtag wanted))).or
    (Entries.lookup claims name)

/-- The value of a claim for a user, if the user has one. -/
def User.project (user : User) (locales : ClaimsLocales) : ReleasableClaim → Option Json
  | .userAttribute .email => user.email.map .str
  | .userAttribute .emailVerified => user.email.map fun _ => .bool user.emailVerified
  | .userAttribute .updatedAt => some (.ofI64 (.ofInt (unixTimestamp user.updatedAt)))
  | .stored name => select user.claims name locales

/-! ### Transformed claims and rules -/

/-- An integer rounded to the 53 bits of a double, ties to even. -/
def roundToDouble (n : ℕ) : ℕ :=
  if n < 2 ^ 53 then n
  else
    let unit := 2 ^ (Nat.log2 n - 52)
    let whole := n / unit
    let rest := n % unit
    if unit < 2 * rest ∨ (unit = 2 * rest ∧ whole % 2 = 1) then (whole + 1) * unit
    else whole * unit

/-- The number as a double. -/
def asF64 : Json → Option ℚ
  | .num (.posInt n) => some (roundToDouble n.toNat)
  | .num (.negInt n) => some (-roundToDouble n.1.toInt.natAbs)
  | .num (.float q) => some q
  | _ => none

/-- Two values of the same kind. -/
def sameKind : Json → Json → Bool
  | .null, .null | .bool _, .bool _ | .num _, .num _ | .str _, .str _ | .arr _, .arr _
  | .obj _, .obj _ => true
  | _, _ => false

namespace Call

/-- Compare two texts, when both values are texts. -/
def onTexts (compare : List Char → List Char → Bool) (input argument : Json) : Option Bool := do
  let text ← input.asStr
  let part ← argument.asStr
  some (compare text.toList part.toList)

/-- Compare two numbers, when both values are numbers. -/
def onNumbers (compare : ℚ → ℚ → Bool) (input argument : Json) : Option Bool := do
  let left ← asF64 input
  let right ← asF64 argument
  some (compare left right)

/-- What a function returns, if it takes the value. -/
def apply (call : Call) (input : Json) : Option Json :=
  (match call.name with
    | .eq =>
      if scalar input ∧ sameKind input call.argument then some (decide (input = call.argument))
      else none
    | .contains => onTexts (fun text part => part <:+: text) input call.argument
    | .startsWith => onTexts (fun text part => part <+: text) input call.argument
    | .endsWith => onTexts (fun text part => part <:+ text) input call.argument
    | .gt => onNumbers (fun left right => right < left) input call.argument
    | .gte => onNumbers (fun left right => right ≤ left) input call.argument
    | .lt => onNumbers (fun left right => left < right) input call.argument
    | .lte => onNumbers (fun left right => left ≤ right) input call.argument).map .bool

end Call

/-- The result of a transformed claim for a user. -/
def Definition.result (definition : Definition) (user : User) (locales : ClaimsLocales) :
    Option Json := do
  let value ← user.project locales definition.base
  definition.functions.foldlM (fun value call => call.apply value) value

/-- One rule.  The claims that are left out stay out for the rules after it. -/
def applyRule (target : Object) (rule : Rule) : Except ClaimsRequestError Object :=
  let matched := (Entries.lookup target rule.loc).any fun value =>
    rule.expected.all fun expected => expected.contains value
  if matched then .ok target
  else
    match rule.omitted with
    | none => .error .advancedClaimsAborted
    | some names => .ok (names.foldl Entries.erase target)

/-- Apply the rules in order. -/
def applyRules (rules : List Rule) (target : Object) : Except ClaimsRequestError Object :=
  rules.foldlM applyRule target

namespace AscRequest

/-- The transformed claims of a section, under their aliases. -/
def transformed (asc : AscRequest) (user : User) (locales : ClaimsLocales)
    (aliases : Entries String ClaimRequest) : List (String × Json) :=
  aliases.filterMap fun e => do
    let definition ← Entries.lookup asc.definitions e.1
    let value ← definition.result user locales
    some (Text.cons ':' e.1, value)

/-- Add the transformed claims. -/
def transform (asc : AscRequest) (user : User) (locales : ClaimsLocales)
    (aliases : Entries String ClaimRequest) (target : Object) : Object :=
  Entries.insertAll target (asc.transformed user locales aliases)

end AscRequest

/-! ### The answer -/

/-- The claims of `profile`. -/
def profileClaims : List String :=
  ["name", "family_name", "given_name", "middle_name", "nickname", "preferred_username", "profile",
    "picture", "website", "gender", "birthdate", "zoneinfo", "locale", "updated_at"]

/-- The claims that scopes stand for. -/
def scopeClaims : List (String × List String) :=
  [("profile", profileClaims), ("email", ["email", "email_verified"]), ("address", ["address"]),
    ("phone", ["phone_number", "phone_number_verified"])]

/-- The claims a scope stands for. -/
def claimsForScope (scope : String) : List String :=
  ((scopeClaims.find? fun e => e.1 = scope).map Prod.snd).getD []

/-- The claims a client receives. -/
structure ResolvedClaims where
  idToken : Object
  userinfo : Object
  deriving DecidableEq

/-- The claims that the scopes stand for and the user has. -/
def scopeDerived (user : User) (scopes : Finset String) (locales : ClaimsLocales) :
    List (String × Json) :=
  (scopes.sort (· ≤ ·)).flatMap fun scope => (claimsForScope scope).filterMap fun name => do
    let claim ← ReleasableClaim.parse name
    let value ← user.project locales claim
    some (name, value)

/-- The claims of one section that the user has. -/
def requestedClaims (user : User) (claims : Entries ReleasableClaim ClaimRequest)
    (locales : ClaimsLocales) : List (String × Json) :=
  claims.filterMap fun e => (user.project locales e.1).map (e.1.asStr, ·)

/-- The claims without transformations and rules.  Nothing that a scope stands for reaches the ID
token. -/
def resolve (user : User) (scopes : Finset String) (requested : ClaimsRequest)
    (locales : ClaimsLocales) : ResolvedClaims :=
  { idToken := Entries.collect (requestedClaims user requested.idToken locales)
    userinfo := Entries.insertAll (Entries.collect (scopeDerived user scopes locales))
      (requestedClaims user requested.userinfo locales) }

/-- Transform both sections, then apply the rules. -/
def AscRequest.apply (asc : AscRequest) (user : User) (locales : ClaimsLocales)
    (resolved : ResolvedClaims) : Except ClaimsRequestError ResolvedClaims := do
  let idToken := asc.transform user locales asc.idToken resolved.idToken
  let userinfo := asc.transform user locales asc.userinfo resolved.userinfo
  let idToken ← applyRules asc.idRules idToken
  let userinfo ← applyRules asc.userRules userinfo
  pure { idToken, userinfo }

/-- The claims of both destinations. -/
def resolveChecked (user : User) (scopes : Finset String) (requested : ClaimsRequest)
    (locales : ClaimsLocales) : Except ClaimsRequestError ResolvedClaims :=
  let resolved := resolve user scopes requested locales
  match requested.asc with
  | none => .ok resolved
  | some asc => asc.apply user locales resolved

/-- The claims a client receives, from the grant and nothing else. -/
def resolveForGrant (serde : Serde) (user : User) (grant : ConsentGrant) :
    Except ClaimsRequestError ResolvedClaims := do
  let requested ← ClaimsRequest.fromJson serde grant.claims
  resolveChecked user grant.scopes requested (ClaimsLocales.fromTags grant.claimsLocales)

/-! ### What was asked for -/

/-- A scope stands for the claim. -/
def ScopeDerived (scopes : Finset String) (claim : ReleasableClaim) : Prop :=
  ∃ scope ∈ scopes, claim.asStr ∈ claimsForScope scope

/-- The transformed claims of a request, with where they are asked for left out. -/
def ClaimsRequest.transformations (requested : ClaimsRequest) : List Definition :=
  requested.asc.elim [] fun asc =>
    (asc.idToken ++ asc.userinfo).filterMap fun e => Entries.lookup asc.definitions e.1

/-- The two users have the same values for what was asked for. -/
structure Agree (scopes : Finset String) (requested : ClaimsRequest) (locales : ClaimsLocales)
    (user user' : User) : Prop where
  derived : ∀ claim, ScopeDerived scopes claim →
    user.project locales claim = user'.project locales claim
  claims : ∀ e ∈ requested.idToken ++ requested.userinfo,
    user.project locales e.1 = user'.project locales e.1
  transformed : ∀ definition ∈ requested.transformations,
    definition.result user locales = definition.result user' locales

/-- A member is a claim of the section or one of its aliases. -/
def AskedIn (claims : Entries ReleasableClaim ClaimRequest)
    (aliases : Entries String ClaimRequest) (name : String) : Prop :=
  (∃ e ∈ claims, e.1.asStr = name) ∨ ∃ e ∈ aliases, Text.cons ':' e.1 = name

section

variable {user user' : User} {scopes : Finset String} {requested : ClaimsRequest}
  {locales : ClaimsLocales} {name : String} {value : Json} {target result : Object}

/-- Records that agree on the spellings of a claim give it the same value. -/
theorem project_eq_of_variants {claim : ReleasableClaim}
    (hema : claim = .userAttribute .email ∨ claim = .userAttribute .emailVerified →
      user.email = user'.email ∧ user.emailVerified = user'.emailVerified)
    (hupd : claim = .userAttribute .updatedAt → user.updatedAt = user'.updatedAt)
    (hsto : ∀ name, claim = .stored name →
      variants user.claims name.base = variants user'.claims name.base) :
    user.project locales claim = user'.project locales claim := by
  cases claim with
  | userAttribute a =>
    cases a with
    | email => simp [User.project, (hema (.inl rfl)).1]
    | emailVerified => simp [User.project, hema (.inr rfl)]
    | updatedAt => simp [User.project, hupd rfl]
  | stored name =>
    have hvar := hsto name rfl
    have hlk : ∀ claims : Entries ClaimName Json,
        lookup (variants claims name.base) name = lookup claims name := by
      intro _
      rw [variants, lookup_filter (fun other : ClaimName => other.base = name.base)]
      simp
    simp [User.project, select, findVariant, hvar, ← hlk user.claims, ← hlk user'.claims]

/-! ### Where members come from -/

variable {claims : Entries ReleasableClaim ClaimRequest} {aliases : Entries String ClaimRequest}

theorem exists_of_mem_requestedClaims (h : (name, value) ∈ requestedClaims user claims locales) :
    ∃ e ∈ claims, e.1.asStr = name := by
  simp only [requestedClaims, List.mem_filterMap, Option.map_eq_some_iff, Prod.mk.injEq] at h
  obtain ⟨e, he, -, -, hnm, -⟩ := h
  exact ⟨e, he, hnm⟩

theorem exists_of_mem_scopeDerived (h : (name, value) ∈ scopeDerived user scopes locales) :
    ∃ claim, ScopeDerived scopes claim ∧ claim.asStr = name := by
  simp only [scopeDerived, List.mem_flatMap, Finset.mem_sort, List.mem_filterMap, bind_eq_some,
    Option.some.injEq] at h
  obtain ⟨scope, hsc, _, hnm, claim, hcl, _, -, rfl, -⟩ := h
  have hasS := (ReleasableClaim.parse_eq_some.1 hcl).1
  exact ⟨claim, ⟨scope, hsc, hasS ▸ hnm⟩, hasS⟩

theorem exists_of_mem_transformed {asc : AscRequest}
    (h : (name, value) ∈ asc.transformed user locales aliases) :
    ∃ e ∈ aliases, Text.cons ':' e.1 = name := by
  simp only [AscRequest.transformed, List.mem_filterMap, bind_eq_some, Option.some.injEq,
    Prod.mk.injEq] at h
  obtain ⟨e, he, -, -, -, -, hnm, -⟩ := h
  exact ⟨e, he, hnm⟩

theorem mem_foldl_erase {names : List String} {m : String × Json}
    (h : m ∈ names.foldl erase target) : m ∈ target := by
  induction names generalizing target with
  | nil => exact h
  | cons omitted names ih => exact List.mem_of_mem_filter (ih h)

/-- A rule adds nothing. -/
theorem applyRule_subset {rule : Rule} (h : applyRule target rule = .ok result) :
    result ⊆ target := by
  unfold applyRule at h
  simp only at h
  split_ifs at h
  · cases h
    exact List.Subset.refl _
  · split at h
    · cases h
    · cases h
      exact fun m hm => mem_foldl_erase hm

theorem applyRules_subset {rules : List Rule} (h : applyRules rules target = .ok result) :
    result ⊆ target :=
  foldlM_invariant (I := (· ⊆ target)) h (List.Subset.refl _) fun _ _ _ _ hsub hrl =>
    List.Subset.trans (applyRule_subset hrl) hsub

theorem baseName_cons_not_mem_serverIssued (short : String) :
    baseName (Text.cons ':' short) ∉ serverIssued := by
  have hpl : ∀ issued ∈ serverIssued, Text.startsWith ':' issued = false := by decide
  intro hmem
  have hcol := hpl _ hmem
  simp [baseName, Text.cons, Text.startsWith] at hcol

theorem AskedIn.base_not_mem (h : AskedIn claims aliases name) : baseName name ∉ serverIssued := by
  rcases h with ⟨e, -, rfl⟩ | ⟨e, -, rfl⟩
  · exact e.1.base_not_mem_serverIssued
  · exact baseName_cons_not_mem_serverIssued e.1

/-- What an answer consists of before the rules take something out of it. -/
theorem resolveChecked_subset {resolved : ResolvedClaims}
    (h : resolveChecked user scopes requested locales = .ok resolved) :
    (∀ m ∈ resolved.idToken, m ∈ requestedClaims user requested.idToken locales ∨
      ∃ e ∈ requested.idContent.aliases, Text.cons ':' e.1 = m.1) ∧
    ∀ m ∈ resolved.userinfo, (m ∈ scopeDerived user scopes locales ∨
      m ∈ requestedClaims user requested.userinfo locales) ∨
        ∃ e ∈ requested.userContent.aliases, Text.cons ':' e.1 = m.1 := by
  have hid : ∀ m ∈ (resolve user scopes requested locales).idToken,
      m ∈ requestedClaims user requested.idToken locales := fun m hm => mem_of_mem_collect hm
  have hu : ∀ m ∈ (resolve user scopes requested locales).userinfo,
      m ∈ scopeDerived user scopes locales ∨
      m ∈ requestedClaims user requested.userinfo locales := by
    intro m hm
    rcases mem_or_mem_of_mem_insertAll hm with hm | hm
    · exact .inr hm
    · exact .inl (mem_of_mem_collect hm)
  cases hasc : requested.asc with
  | none =>
    simp only [resolveChecked, hasc, Except.ok.injEq] at h
    subst h
    exact ⟨fun m hm => .inl (hid m hm), fun m hm => .inl (hu m hm)⟩
  | some =>
    simp only [resolveChecked, hasc, AscRequest.apply, bind_ok, pure_ok] at h
    obtain ⟨_, hidR, _, huse, rfl⟩ := h
    simp only [idContent, userContent, hasc, Option.map_some]
    refine ⟨fun m hm => ?_, fun m hm => ?_⟩
    · rcases mem_or_mem_of_mem_insertAll (applyRules_subset hidR hm) with hm | hm
      · exact .inr (exists_of_mem_transformed hm)
      · exact .inl (hid m hm)
    · rcases mem_or_mem_of_mem_insertAll (applyRules_subset huse hm) with hm | hm
      · exact .inr (exists_of_mem_transformed hm)
      · exact .inl (hu m hm)

/-! ### Two users -/

theorem requestedClaims_congr
    (h : ∀ e ∈ claims, user.project locales e.1 = user'.project locales e.1) :
    requestedClaims user claims locales = requestedClaims user' claims locales :=
  List.filterMap_congr fun e he => by rw [h e he]

theorem scopeDerived_congr (h : ∀ claim, ScopeDerived scopes claim →
      user.project locales claim = user'.project locales claim) :
    scopeDerived user scopes locales = scopeDerived user' scopes locales := by
  refine List.flatMap_congr fun scope hsc => List.filterMap_congr fun name hnm => ?_
  cases hpar : ReleasableClaim.parse name with
  | none => rfl
  | some claim =>
    have hasS := (ReleasableClaim.parse_eq_some.1 hpar).1
    have hder : ScopeDerived scopes claim :=
      ⟨scope, (Finset.mem_sort _).1 hsc, hasS ▸ hnm⟩
    simp [h claim hder]

theorem transformed_congr {asc : AscRequest}
    (h : ∀ e ∈ aliases, ∀ definition, lookup asc.definitions e.1 = some definition →
      definition.result user locales = definition.result user' locales) :
    asc.transformed user locales aliases = asc.transformed user' locales aliases := by
  refine List.filterMap_congr fun e he => ?_
  cases hlk : lookup asc.definitions e.1 with
  | none => rfl
  | some definition => simp [h e he definition hlk]

theorem resolveChecked_congr (h : Agree scopes requested locales user user') :
    resolveChecked user scopes requested locales =
      resolveChecked user' scopes requested locales := by
  obtain ⟨hid, hu⟩ := List.forall_mem_append.1 h.claims
  have hrsv : resolve user scopes requested locales =
      resolve user' scopes requested locales := by
    rw [resolve, resolve, requestedClaims_congr hid, requestedClaims_congr hu,
      scopeDerived_congr h.derived]
  cases hasc : requested.asc with
  | none => simp [resolveChecked, hasc, hrsv]
  | some asc =>
    have hdf : ∀ e ∈ asc.idToken ++ asc.userinfo, ∀ definition,
        lookup asc.definitions e.1 = some definition →
        definition.result user locales = definition.result user' locales := by
      intro e he definition hlk
      refine h.transformed definition ?_
      simp only [transformations, hasc]
      exact List.mem_filterMap.2 ⟨e, he, hlk⟩
    obtain ⟨hidT, huse⟩ := List.forall_mem_append.1 hdf
    simp [resolveChecked, hasc, hrsv, AscRequest.apply, AscRequest.transform,
      transformed_congr hidT, transformed_congr huse]

end

/-- **What a grant releases.**  Members of the ID token were asked for there, members at the
UserInfo endpoint were asked for there or stand for a granted scope, none is a claim the server
issues about the exchange, and users with the same values for what was asked for get the same
answer. -/
theorem resolveForGrant_spec {serde : Serde} {grant : ConsentGrant} {requested : ClaimsRequest}
    (hread : ClaimsRequest.fromJson serde grant.claims = .ok requested) :
    (∀ user resolved, resolveForGrant serde user grant = .ok resolved →
      (∀ m ∈ resolved.idToken, AskedIn requested.idToken requested.idContent.aliases m.1) ∧
      (∀ m ∈ resolved.userinfo, (∃ claim, ScopeDerived grant.scopes claim ∧ claim.asStr = m.1) ∨
        AskedIn requested.userinfo requested.userContent.aliases m.1) ∧
      ∀ m ∈ resolved.idToken ++ resolved.userinfo, baseName m.1 ∉ serverIssued) ∧ ∀ user user',
      Agree grant.scopes requested (ClaimsLocales.fromTags grant.claimsLocales) user user' →
      resolveForGrant serde user grant = resolveForGrant serde user' grant := by
  have heq : ∀ user, resolveForGrant serde user grant =
      resolveChecked user grant.scopes requested (ClaimsLocales.fromTags grant.claimsLocales) := by
    intro user
    rw [resolveForGrant, hread]
    rfl
  refine ⟨fun user resolved hrsv => ?_, fun user user' hagr => ?_⟩
  · rw [heq] at hrsv
    obtain ⟨hid, hu⟩ := resolveChecked_subset hrsv
    have hidAs : ∀ m ∈ resolved.idToken,
        AskedIn requested.idToken requested.idContent.aliases m.1 :=
      fun m hm => (hid m hm).imp_left exists_of_mem_requestedClaims
    have huse : ∀ m ∈ resolved.userinfo,
        (∃ claim, ScopeDerived grant.scopes claim ∧ claim.asStr = m.1) ∨
          AskedIn requested.userinfo requested.userContent.aliases m.1 := by
      intro m hm
      rcases hu m hm with (hsc | hcl) | hali
      · exact .inl (exists_of_mem_scopeDerived hsc)
      · exact .inr (.inl (exists_of_mem_requestedClaims hcl))
      · exact .inr (.inr hali)
    refine ⟨hidAs, huse, fun m hm => ?_⟩
    rcases List.mem_append.1 hm with hm | hm
    · exact (hidAs m hm).base_not_mem
    · rcases huse m hm with ⟨claim, -, hnm⟩ | hask
      · exact hnm ▸ claim.base_not_mem_serverIssued
      · exact hask.base_not_mem
  · rw [heq, heq, resolveChecked_congr hagr]

/-- A user with an address and other claims. -/
def userWith (claims : Entries ClaimName Json) : User :=
  { email := some "ada@example.com", emailVerified := true, claims, updatedAt := 0 }

/-- A grant for the address, by scope and by claims request. -/
def emailGrant : ConsentGrant :=
  { Grant.new "grant-1" "reader" "rev-1" 0 with
    subject := some "ada"
    scopes := {"email"}
    claims := .obj ClaimsRequest.emailRoot
    claimsLocales := ["en"]
    authentication := none
    updatedAt := 0 }

/-- The reader of the address is not told whether there is a date of birth. -/
theorem resolveForGrant_email :
    resolveForGrant .compact (userWith []) emailGrant =
      resolveForGrant .compact (userWith [(⟨"birthdate", by decide⟩, .str "1990-01-01")])
        emailGrant := by
  have hcls : emailGrant.claims = .obj emailRoot := rfl
  have hrd : fromJson .compact emailGrant.claims =
      .ok emailRequest := by
    exact parse_emailRoot
  refine (resolveForGrant_spec hrd).2 _ _ ⟨?_, ?_, ?_⟩
  · rintro claim ⟨scope, hsc, hnm⟩
    obtain rfl : scope = "email" := by simpa [emailGrant] using hsc
    refine project_eq_of_variants (fun _ => ⟨rfl, rfl⟩) (fun _ => rfl) ?_
    -- the scope stands for columns of the user only
    rintro name rfl
    have hcol : ∀ column ∈ claimsForScope "email",
        baseName column ∈ serverIssued ++ heldInAColumn := by decide
    exact absurd (hcol _ hnm) name.base_not_mem_reserved
  · intro e he
    obtain rfl : e = (.userAttribute .email, { essential := true, values := [] }) := by
      simpa [emailRequest, ClaimsRequest.default] using he
    rfl
  · intro _ hdef
    simp [transformations, emailRequest, ClaimsRequest.default]
      at hdef

end AsteriusIdp
