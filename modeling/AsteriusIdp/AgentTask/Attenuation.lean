import AsteriusIdp.Issuance.Authority

/-!
# Delegation under a ceiling

A ceiling covers each requested detail by one single approved detail, so an action at a location
comes from one approval and never from two.  Read as a ceiling itself, a permitted grant permits
nothing more, and so it goes down a chain of delegations.

* `covers_trans`, `Permissions.permits_trans`: ceilings compose.
* `Permissions.permits_of_chain`: the grant at the end of a chain stays under the ceiling.
* `Permissions.permits_attenuates`: what a permitted grant may do, and what it may pass on.
-/

namespace AsteriusIdp.AgentTask

open Fallible
open Issuance (ceilingOf)

/-- A detail of some type allows an action at a location. -/
def allows (detail : Json) (type action location : String) : Bool :=
  detail.asObject.any fun object =>
    (object.lookup "type").bind Json.asStr = some type ∧
      (arrayOf object "actions").any (·.contains (.str action)) ∧
      (arrayOf object "locations").any (·.contains (.str location))

/-! ### Covering -/

variable {approved requested detail : Json}

/-- The array of a requested detail is part of the array of an approved one. -/
theorem covers_iff : covers approved requested ↔
    ∃ a r, approved = .obj a ∧ requested = .obj r ∧ ∀ key ∈ ["actions", "locations"],
      ∃ as rs, arrayOf a key = some as ∧ arrayOf r key = some rs ∧ rs ⊆ as := by
  simp only [covers, Option.any_eq_true, Json.asObject_eq_some, List.all_eq_true]
  constructor
  · rintro ⟨a, ha, r, hr, h⟩
    refine ⟨a, r, ha, hr, fun key hkey => ?_⟩
    have hcov := h key hkey
    cases has : arrayOf a key with
    | none => cases hrs : arrayOf r key <;> simp [has] at hcov
    | some as =>
      cases hrs : arrayOf r key with
      | none => simp [hrs] at hcov
      | some rs =>
        simp only [has, hrs, List.all_eq_true, List.contains_iff_mem] at hcov
        exact ⟨as, rs, rfl, rfl, hcov⟩
  · rintro ⟨a, r, ha, hr, h⟩
    refine ⟨a, ha, r, hr, fun key hkey => ?_⟩
    obtain ⟨_, _, has, hrs, hsub⟩ := h key hkey
    simp only [has, hrs, List.all_eq_true, List.contains_iff_mem]
    exact fun x hx => hsub hx

theorem covers_trans {a b c : Json} (hab : covers a b) (hbc : covers b c) : covers a c := by
  obtain ⟨oa, _, ha, hb, harr⟩ := covers_iff.1 hab
  obtain ⟨_, oc, hb', hc, harr'⟩ := covers_iff.1 hbc
  cases hb.symm.trans hb'
  refine covers_iff.2 ⟨oa, oc, ha, hc, fun key hkey => ?_⟩
  obtain ⟨as, _, has, hbs, hsub⟩ := harr key hkey
  obtain ⟨_, cs, hbs', hcs, hsub'⟩ := harr' key hkey
  cases hbs.symm.trans hbs'
  exact ⟨as, cs, has, hcs, List.Subset.trans hsub' hsub⟩

/-- Of two details of one type, the one that covers the other allows what it allows. -/
theorem allows_of_covers {a r : Object}
    (h : covers approved requested) (ha : approved = .obj a) (hr : requested = .obj r)
    (hty : (a.lookup "type").bind Json.asStr = (r.lookup "type").bind Json.asStr)
    {type action location : String} (hall : allows requested type action location) :
    allows approved type action location := by
  obtain ⟨_, _, ha', hr', harr⟩ := covers_iff.1 h
  cases ha.symm.trans ha'
  cases hr.symm.trans hr'
  subst ha hr
  simp only [allows, Json.asObject, Option.any_some, decide_eq_true_eq] at hall ⊢
  obtain ⟨hrty, hact, hloc⟩ := hall
  refine ⟨hty.trans hrty, ?_, ?_⟩
  · obtain ⟨as, rs, has, hrs, hsub⟩ := harr "actions" (by simp)
    rw [hrs, Option.any_some, List.contains_iff_mem] at hact
    rw [has, Option.any_some, List.contains_iff_mem]
    exact hsub hact
  · obtain ⟨_, _, has, hrs, hsub⟩ := harr "locations" (by simp)
    rw [hrs, Option.any_some, List.contains_iff_mem] at hloc
    rw [has, Option.any_some, List.contains_iff_mem]
    exact hsub hloc

/-! ### The actions of a ceiling -/

variable {actions start allowed targets : Finset String}

theorem addActions_ok {actions' : Finset String} (h : addActions actions detail = .ok actions') :
    ∃ object items, detail = .obj object ∧ comparable object ∧
    arrayOf object "actions" = some items ∧
    ∀ name, name ∈ actions' ↔ name ∈ actions ∨ Json.str name ∈ items := by
  simp only [addActions, bind_ok, okOr_ok, refuseIf_ok, pure_ok, not_not,
    Json.asObject_eq_some] at h
  obtain ⟨object, rfl, -, hcmp, items, hit, _, hnms, rfl⟩ := h
  refine ⟨object, items, rfl, hcmp, hit, fun name => ?_⟩
  rw [Finset.mem_union, List.mem_toFinset]
  refine or_congr_right ⟨fun hnm => ?_, fun hnm => ?_⟩
  · obtain ⟨_, hitem, hstr⟩ := exists_of_mem_mapM hnms hnm
    rw [okOr_ok, Json.asStr_eq_some] at hstr
    exact hstr ▸ hitem
  · obtain ⟨_, hi, hget⟩ := List.getElem_of_mem hnm
    obtain ⟨_, hy, hstr⟩ := getElem?_of_mapM hnms (List.getElem?_eq_some_iff.2 ⟨hi, hget⟩)
    rw [okOr_ok, Json.asStr_eq_some, Json.str.injEq] at hstr
    exact hstr ▸ List.mem_of_getElem? hy

variable {details : List Json}

/-- The actions of a ceiling are those that its details name. -/
theorem mem_actions (h : details.foldlM addActions start = .ok actions) {name : String} :
    name ∈ actions ↔ name ∈ start ∨ ∃ object items, .obj object ∈ details ∧
    arrayOf object "actions" = some items ∧ Json.str name ∈ items := by
  induction details generalizing start with
  | nil =>
    simp only [List.foldlM_nil, pure_ok] at h
    subst h
    simp
  | cons detail details ih =>
    simp only [List.foldlM_cons, bind_ok] at h
    obtain ⟨_, hfst, h⟩ := h
    obtain ⟨object, items, rfl, -, hit, hmi⟩ := addActions_ok hfst
    rw [ih h, hmi, or_assoc]
    refine or_congr_right ⟨?_, ?_⟩
    · rintro (hnm | ⟨object', items', hmem, hit', hnm⟩)
      · exact ⟨object, items, List.mem_cons_self, hit, hnm⟩
      · exact ⟨object', items', List.mem_cons_of_mem _ hmem, hit', hnm⟩
    · rintro ⟨object', items', hmem, hit', hnm⟩
      rcases List.mem_cons.1 hmem with heq | hmem
      · cases heq
        cases hit.symm.trans hit'
        exact .inl hnm
      · exact .inr ⟨object', items', hmem, hit', hnm⟩

theorem comparable_of_actions (h : details.foldlM addActions start = .ok actions)
    (hd : detail ∈ details) : ∃ object, detail = .obj object ∧ comparable object := by
  refine foldlM_each (I := fun _ => True)
    (Q := fun detail _ => ∃ object, detail = .obj object ∧ comparable object) h trivial
    (fun _ _ _ _ _ _ => trivial) (fun detail _ s s' _ hst => ?_) ?_ detail hd
  · obtain ⟨object, _, rfl, hcmp, -⟩ := addActions_ok hst
    exact ⟨object, rfl, hcmp⟩
  · exact List.pairwise_of_forall fun _ _ _ _ _ _ hold => hold

/-! ### Ceilings compose -/

theorem validateAction_ok {u : Unit} :
    validateAction allowed targets detail = .ok u ↔ ∃ object actions locations,
      detail = .obj object ∧ comparable object ∧ arrayOf object "actions" = some actions ∧
      ¬(actions = [] ∨ actions.length > 64) ∧
      (∀ action ∈ actions, ∃ name ∈ allowed, action = .str name) ∧
      arrayOf object "locations" = some locations ∧ locations.length = 1 ∧
      ∀ location ∈ locations, ∃ name ∈ targets, location = .str name := by
  have hany (names : Finset String) (v : Json) :
      v.asStr.any (· ∈ names) = true ↔ ∃ name ∈ names, v = .str name := by
    simp [Option.any_eq_true, and_comm]
  simp only [validateAction, bind_ok, okOr_ok, refuseIf_ok, not_not, not_exists,
    Json.asObject_eq_some]
  simp only [hany]
  grind

theorem validateAction_mono {allowed' targets' : Finset String}
    {u : Unit} (h : validateAction allowed targets detail = .ok u) (halw : allowed ⊆ allowed')
    (htg : targets ⊆ targets') : validateAction allowed' targets' detail = .ok u := by
  rw [validateAction_ok] at h ⊢
  obtain ⟨object, actions, locations, hobj, hcmp, hac, hsz, hnms, hloc, hone, hpl⟩ := h
  refine ⟨object, actions, locations, hobj, hcmp, hac, hsz, fun action ha => ?_,
    hloc, hone, fun location hl => ?_⟩
  · obtain ⟨name, hnm, heq⟩ := hnms action ha
    exact ⟨name, halw hnm, heq⟩
  · obtain ⟨name, hnm, heq⟩ := hpl location hl
    exact ⟨name, htg hnm, heq⟩

namespace Permissions

variable {ceiling : Permissions} {g h : Grant}

variable {details : List Json} {u : Unit}

theorem permitsDetails_ok {resources : Finset String} :
    ceiling.permitsDetails details resources = .ok u ↔ ∃ actions,
      ceiling.authorizationDetails.foldlM addActions ∅ = .ok actions ∧ details.length ≤ 16 ∧
      ∀ detail ∈ details, validateAction actions resources detail = .ok () ∧
      ∃ approved ∈ ceiling.authorizationDetails, covers approved detail := by
  simp only [permitsDetails, validateActions, bind_ok, refuseIf_ok, not_exists, not_and,
    not_not, not_lt]
  simp only [List.any_eq_true]
  constructor
  · rintro ⟨actions, hac, _, ⟨_, hlen, hok⟩, _, -, hcov⟩
    exact ⟨actions, hac, hlen, fun detail hd =>
      ⟨forM_ok.1 hok detail hd, hcov detail hd⟩⟩
  · rintro ⟨actions, hac, hlen, hds⟩
    refine ⟨actions, hac, (), ⟨(), hlen, forM_ok.2 fun detail hd => (hds detail hd).1⟩,
      (), fun detail hd => ?_, fun detail hd => (hds detail hd).2⟩
    obtain ⟨_, -, -, rfl, -⟩ := validateAction_ok.1 (hds detail hd).1
    simp [Json.asObject]

theorem permits_ok : ceiling.permits g = .ok u ↔
    g.scopes ⊆ ceiling.scopes ∧ g.resources ⊆ ceiling.resources ∧
    g.actorChain.length ≤ ceiling.maxDelegationDepth ∧
    ceiling.permitsDetails g.authorizationDetails g.resources = .ok () := by
  simp only [permits, bind_ok, refuseIf_ok, not_or, not_not, not_lt]
  constructor
  · rintro ⟨_, ⟨hscs, hrs, hdep⟩, hds⟩
    exact ⟨hscs, hrs, hdep, hds⟩
  · rintro ⟨hscs, hrs, hdep, hds⟩
    exact ⟨(), ⟨hscs, hrs, hdep⟩, hds⟩

/-- What a ceiling permits at some targets it permits at more of them. -/
theorem permitsDetails_mono {resources resources' : Finset String}
    (h : ceiling.permitsDetails details resources = .ok u) (hsub : resources ⊆ resources') :
    ceiling.permitsDetails details resources' = .ok u := by
  rw [permitsDetails_ok] at h ⊢
  obtain ⟨actions, hac, hlen, hds⟩ := h
  refine ⟨actions, hac, hlen, fun detail hd => ?_⟩
  obtain ⟨hok, hcov⟩ := hds detail hd
  exact ⟨validateAction_mono hok subset_rfl hsub, hcov⟩

section

variable (hg : ceiling.permits g = .ok ())
include hg

/-- A permitted grant that is read as a ceiling permits nothing that the ceiling does not. -/
theorem permits_trans (hh : (ceilingOf g ceiling.maxDelegationDepth).permits h = .ok ()) :
    ceiling.permits h = .ok () := by
  rw [permits_ok, permitsDetails_ok] at hg hh ⊢
  obtain ⟨hscs, hrs, -, actions, hac, -, hds⟩ := hg
  obtain ⟨hscs', hrs', hdep, actions', hac', hlen, hds'⟩ := hh
  -- every action that the grant passes on is one of the ceiling
  have hsub : actions' ⊆ actions := by
    intro _ hnm
    obtain hemp | ⟨_, _, hmem, hit, hnm⟩ := (mem_actions hac').1 hnm
    · cases hemp
    · obtain ⟨_, _, -, heq, -, hit', -, halw, -⟩ :=
        validateAction_ok.1 (hds _ hmem).1
      cases heq
      cases hit.symm.trans hit'
      obtain ⟨_, hmem', heq⟩ := halw _ hnm
      cases heq
      exact hmem'
  refine ⟨hscs'.trans hscs, hrs'.trans hrs, hdep, actions, hac, hlen, fun detail hd => ?_⟩
  obtain ⟨hok, middle, hmi, hcov⟩ := hds' detail hd
  obtain ⟨-, approved, hmem, hcov'⟩ := hds middle hmi
  exact ⟨validateAction_mono hok hsub subset_rfl, approved, hmem, covers_trans hcov' hcov⟩

/-- Each detail of a permitted grant allows what one approved detail allows. -/
theorem allows_of_permits {detail : Json}
    (hd : detail ∈ g.authorizationDetails) : ∃ approved ∈ ceiling.authorizationDetails,
      ∀ type action location, allows detail type action location →
        allows approved type action location := by
  obtain ⟨-, -, -, hds⟩ := permits_ok.1 hg
  obtain ⟨_, hac, -, hds⟩ := permitsDetails_ok.1 hds
  obtain ⟨hok, approved, hmem, hcov⟩ := hds detail hd
  obtain ⟨r, -, -, hr, hcmp, -⟩ := validateAction_ok.1 hok
  obtain ⟨a, ha, hcmp'⟩ := comparable_of_actions hac hmem
  -- both are of the one type that can be compared
  have hty : (Entries.lookup a "type").bind Json.asStr =
      (Entries.lookup r "type").bind Json.asStr := by
    simp only [comparable, decide_eq_true_eq] at hcmp hcmp'
    rw [hcmp.2, hcmp'.2]
  exact ⟨approved, hmem, fun _ _ _ => allows_of_covers hcov ha hr hty⟩

/-- Down a chain of delegations the ceiling holds. -/
theorem permits_of_chain (hchn : Relation.ReflTransGen
      (fun g h => (ceilingOf g ceiling.maxDelegationDepth).permits h = .ok ()) g h) :
    ceiling.permits h = .ok () := by
  induction hchn with
  | refl => exact hg
  | tail _ hst ih => exact permits_trans ih hst

end

/-- A permitted grant may do what one approved detail allows, and so may everything it permits
itself, however often that is passed on. -/
theorem permits_attenuates (ceiling : Permissions) (g h : Grant) (hg : ceiling.permits g = .ok ()) :
    (∀ detail ∈ g.authorizationDetails, ∃ approved ∈ ceiling.authorizationDetails,
      ∀ type action location, allows detail type action location →
        allows approved type action location) ∧
    g.scopes ⊆ ceiling.scopes ∧ g.resources ⊆ ceiling.resources ∧
    (Relation.ReflTransGen
      (fun g h => (ceilingOf g ceiling.maxDelegationDepth).permits h = .ok ()) g h →
      ceiling.permits h = .ok ()) := by
  obtain ⟨hscs, hrs, -, -⟩ := permits_ok.1 hg
  exact ⟨fun detail hd => allows_of_permits hg hd, hscs, hrs, permits_of_chain hg⟩

/-- A detail with some actions at one API. -/
def workloadDetail (actions : List String) (location : String) : Json :=
  .obj [("actions", .arr (actions.map .str)), ("locations", .arr [.str location]),
    ("type", .str workloadActions)]

/-- Reading at one API and writing at another. -/
def twoApis : Permissions :=
  { scopes := {"jobs"}
    resources := {"https://a.example/", "https://b.example/"}
    authorizationDetails := [workloadDetail ["list", "read"] "https://a.example/",
      workloadDetail ["write"] "https://b.example/"]
    maxDelegationDepth := 2 }

/-- A grant for some actions at one of the APIs. -/
def apiGrant (actions : List String) (location : String) : Grant :=
  { Grant.new "grant" "app" "rev" 0 with
    scopes := {"jobs"}, resources := {location}
    authorizationDetails := [workloadDetail actions location] }

/-- Reading is passed on; writing where only reading was approved is not permitted. -/
theorem permits_attenuates_twoApis :
    twoApis.permits (apiGrant ["list", "read"] "https://a.example/") = .ok () ∧
    twoApis.permits (apiGrant ["read"] "https://a.example/") = .ok () ∧
    twoApis.permits (apiGrant ["write"] "https://a.example/") = .error .invalid := by
  refine ⟨by rfl, ?_, by rfl⟩
  have hatt := permits_attenuates twoApis (apiGrant ["list", "read"] "https://a.example/")
    (apiGrant ["read"] "https://a.example/") (by rfl)
  exact hatt.2.2.2 (.single (by rfl))

end Permissions

end AsteriusIdp.AgentTask
