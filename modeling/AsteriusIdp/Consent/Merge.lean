import AsteriusIdp.Consent.Memory
import AsteriusIdp.Domain.AuthorizationDetails
import AsteriusIdp.Domain.GrantRecord
import AsteriusIdp.Lib.Distinct

/-!
# Amending a grant

A client can ask that a new authorization be merged into a grant it holds, or replace it
(`GrantAction.apply`).  A merge takes the union of what the two grants authorize, component by
component; the claims are united as documents, member by member of the two sections.

* `merge_recorded` : what the merged grant records.  The verified claims of a section are one
  member, so those of the new request take the place of those that were agreed to before.
* `merge_valid` : when the merged grant keeps to the bounds of a row.  The numbers of scopes and of
  resources are not looked at.
-/

namespace AsteriusIdp

open Fallible Json Entries ClaimsRequest

/-- The two grants cannot be merged. -/
structure MergeRefused where
  deriving DecidableEq

/-- The union of two sets of scopes or resources. -/
def union (existing granted : Finset String) : Finset String := existing ∪ granted

/-- The union of two lists of authorization details. -/
def mergedDetails (existing granted : List Json) : Except MergeRefused (List Json) := do
  let merged := Distinct.append existing granted
  refuseIf (AuthorizationDetails.maxElements < merged.length) {}
  pure merged

/-- What stands under a name of the merged document. -/
def mergedMember (held : Option Json) (requested : Json) : Json :=
  match held, requested with
  | some (.obj held), .obj requested => .obj (Entries.insertAll held requested)
  | _, requested => requested

/-- The union of two documents, section by section. -/
def mergedRoot (existing granted : Object) : Object :=
  Entries.mergeWith mergedMember existing granted

/-- The text of the advanced claims of a request. -/
def ClaimsRequest.advancedSurface (serde : Serde) (request : ClaimsRequest) : Option String :=
  request.asc.map (AscRequest.consentSurface serde)

/-- The union of two claims requests. -/
def mergedClaims (serde : Serde) (existing granted : Json) : Except MergeRefused Json := do
  let heldRequest ← (ClaimsRequest.fromJson serde existing).mapError fun _ => {}
  let newRequest ← (ClaimsRequest.fromJson serde granted).mapError fun _ => {}
  let heldAsc := heldRequest.advancedSurface serde
  let newAsc := newRequest.advancedSurface serde
  refuseIf (heldAsc.isSome ∧ newAsc.isSome ∧ heldAsc ≠ newAsc) {}
  let existing ← okOr existing.asObject {}
  let granted ← okOr granted.asObject {}
  let merged := Json.obj (mergedRoot existing granted)
  let parsed ← (ClaimsRequest.fromJson serde merged).mapError fun _ => {}
  refuseIf (parsed.advancedSurface serde ≠ heldAsc.or newAsc) {}
  pure merged

/-- The union of two lists of languages, cut at the bound. -/
def mergedLocales (existing granted : List String) : List String :=
  (Distinct.append [] (existing ++ granted)).take Grant.maxClaimsLocales

namespace GrantAction

/-- What every amendment writes: the authentication is the one of today. -/
def stamp (existing granted : ConsentGrant) (now : ℤ) : ConsentGrant :=
  { existing with
    session := granted.session
    authentication := granted.authentication
    subject := granted.subject
    updatedAt := now }

/-- Amend a grant, and the grant as it is afterwards.  Both fallible unions are taken before
anything is written. -/
def apply (serde : Serde) (action : GrantAction) (existing granted : ConsentGrant) (now : ℤ) :
    Except MergeRefused Unit × ConsentGrant :=
  match action with
  | .create => (.ok (), existing)
  | .replace =>
    (.ok (), stamp
      { existing with
        scopes := granted.scopes
        resources := granted.resources
        authorizationDetails := granted.authorizationDetails
        claims := granted.claims
        claimsLocales := granted.claimsLocales } granted now)
  | .merge =>
    match mergedDetails existing.authorizationDetails granted.authorizationDetails with
    | .error e => (.error e, existing)
    | .ok details =>
      match mergedClaims serde existing.claims granted.claims with
      | .error e => (.error e, existing)
      | .ok claims =>
        (.ok (), stamp
          { existing with
            scopes := union existing.scopes granted.scopes
            resources := union existing.resources granted.resources
            authorizationDetails := details
            claims
            claimsLocales := mergedLocales existing.claimsLocales granted.claimsLocales }
          granted now)

end GrantAction

/-! ### The merged document -/

/-- The section of the granted document is no object and takes the place of the stored one. -/
def wipes (granted : Object) (destination : Destination) : Bool :=
  (Entries.lookup granted destination.asStr).any fun v => v.asObject.isNone

section Document

variable {old granted : Object}

theorem lookup_mergedRoot (hgranted : Sorted granted) (name : String) :
    lookup (mergedRoot old granted) name =
      ((lookup granted name).map (mergedMember (lookup old name))).or (lookup old name) :=
  lookup_mergeWith hgranted.pairwise_ne name

/-- **A section of the merged document**: what the new one holds, then what the stored one
held. -/
theorem lookup_sectionOf_mergedRoot (old : Object) {n : ℕ}
    (hgranted : Plain (n + 2) (.obj granted)) (dest : Destination) (name : String) :
    lookup (sectionOf (mergedRoot old granted) dest.asStr) name =
      (lookup (sectionOf granted dest.asStr) name).or
        (if wipes granted dest then none else lookup (sectionOf old dest.asStr) name) := by
  obtain ⟨hso, hms⟩ := plain_obj.1 hgranted
  unfold wipes sectionOf
  rw [lookup_mergedRoot hso]
  cases hlk : lookup granted dest.asStr with
  | none => simp
  | some v =>
    cases v with
    | obj requested =>
      have hreq : Sorted requested :=
        (plain_obj.1 (hms _ (mem_of_lookup hlk)).2).1
      rcases lookup old dest.asStr with _ | (_ | _ | _ | _ | _ | held) <;>
        simp [mergedMember, asObject, lookup_insertAll hreq.pairwise_ne]
    | _ =>
      rcases lookup old dest.asStr with _ | (_ | _ | _ | _ | _ | _) <;>
        simp [mergedMember, asObject]

theorem plain_mergedMember {n : ℕ} {held : Option Json} {requested : Json}
    (hhd : ∀ v, held = some v → Plain (n + 1) v) (hreq : Plain (n + 1) requested) :
    Plain (n + 1) (mergedMember held requested) := by
  unfold mergedMember
  split
  · exact (hhd _ rfl).insertAll (plain_obj.1 hreq).2
  · exact hreq

theorem plain_mergedRoot {n : ℕ} (hexisting : Plain (n + 2) (.obj old))
    (hgranted : Plain (n + 2) (.obj granted)) : Plain (n + 2) (.obj (mergedRoot old granted)) := by
  obtain ⟨hso, hms⟩ := plain_obj.1 hexisting
  obtain ⟨hso', hms'⟩ := plain_obj.1 hgranted
  have hmrg : Sorted (mergedRoot old granted) := hso.mergeWith _ _
  refine plain_obj.2 ⟨hmrg, fun m hm => ?_⟩
  have hlk := hmrg.lookup_of_mem hm
  rw [lookup_mergedRoot hso', Option.or_eq_some_iff, Option.map_eq_some_iff] at hlk
  rcases hlk with ⟨_, hreq, hval⟩ | ⟨-, hhd⟩
  · obtain ⟨hnm, hpl⟩ := hms' _ (mem_of_lookup hreq)
    refine ⟨hnm, hval ▸ plain_mergedMember (fun v hv => ?_) hpl⟩
    exact (hms _ (mem_of_lookup hv)).2
  · exact hms _ (mem_of_lookup hhd)

/-- Merging the same document a second time changes nothing. -/
theorem mergedRoot_mergedRoot {n : ℕ} (hexisting : Plain (n + 2) (.obj old))
    (hgranted : Plain (n + 2) (.obj granted)) :
    mergedRoot (mergedRoot old granted) granted = mergedRoot old granted := by
  obtain ⟨hso, hms⟩ := plain_obj.1 hexisting
  obtain ⟨hso', hms'⟩ := plain_obj.1 hgranted
  refine hso.mergeWith_mergeWith hso' fun name requested hreq => ?_
  cases requested with
  | obj requested =>
    have hnew : Sorted requested :=
      (plain_obj.1 (hms' _ (mem_of_lookup hreq)).2).1
    cases hlk : lookup old name with
    | none => simp [mergedMember, hnew.insertAll_self]
    | some held =>
      cases held with
      | obj held =>
        have hhd : Sorted held :=
          (plain_obj.1 (hms _ (mem_of_lookup hlk)).2).1
        simp [mergedMember, hhd.insertAll_insertAll hnew]
      | _ => simp [mergedMember, hnew.insertAll_self]
  | _ => simp [mergedMember]

end Document

/-! ### The surface of a document -/

section Surface

variable {serde : Serde} {req : ClaimsRequest} {root : Object} {text : String}

/-- A surface, destination by destination. -/
theorem mem_claimsSurface_parts :
    text ∈ claimsSurface serde req ↔
      (∃ dest, text ∈ sectionSurface dest (req.claimsFor dest)) ∨
      (∃ asc, req.advancedSurface serde = some asc ∧ text = Text.qualified "asc" asc) ∨
      ∃ dest ida, req.idaFor dest = some ida ∧ text ∈ idaSurface dest ida := by
  have hdst : ∀ p : Destination → Prop, (∃ dest, p dest) ↔
      p .idToken ∨ p .userinfo := by
    refine fun p => ⟨?_, fun h => h.elim (⟨_, ·⟩) (⟨_, ·⟩)⟩
    rintro ⟨_ | _, h⟩
    exacts [.inl h, .inr h]
  have hel : ∀ {α : Type} (o : Option α) (f : α → Finset String),
      text ∈ o.elim ∅ f ↔ ∃ a, o = some a ∧ text ∈ f a := by
    intro α o _
    cases o <;> simp
  simp [claimsSurface, hdst, hel, claimsFor, idaFor, advancedSurface, or_assoc]

/-- The claims of a destination are the members of its section with the name of a claim. -/
theorem mem_sectionSurface_of_readRoot (hdoc : Plain 8 (.obj root))
    (h : readRoot root = .ok req) (dest : Destination) :
    text ∈ sectionSurface dest (req.claimsFor dest) ↔
      ∃ name, isClaimName name = true ∧ (lookup (sectionOf root dest.asStr) name).isSome ∧
      Text.qualified dest.asStr name = text := by
  obtain ⟨_, _, hfr⟩ := readRoot_ok.1 h
  have hnms : ∀ name, (∃ e ∈ req.claimsFor dest, e.1.asStr = name) ↔
      isClaimName name = true ∧
      contains (sectionOf root dest.asStr) name = true := by
    intro name
    cases dest with
    | idToken =>
      rw [claimsFor, hfr.idToken]
      exact hfr.id.exists_claim hdoc
    | userinfo =>
      rw [claimsFor, hfr.userinfo]
      exact hfr.user.exists_claim hdoc
  rw [mem_sectionSurface]
  constructor
  · rintro ⟨e, he, rfl⟩
    obtain ⟨hnm, hcon⟩ := (hnms e.1.asStr).1 ⟨e, he, rfl⟩
    exact ⟨_, hnm, hcon, rfl⟩
  · rintro ⟨name, hnm, hcon, rfl⟩
    obtain ⟨e, he, rfl⟩ := (hnms name).2 ⟨hnm, hcon⟩
    exact ⟨e, he, rfl⟩

theorem parseIdaSection_of_readRoot (h : readRoot root = .ok req) (dest : Destination) :
    parseIdaSection root dest.asStr = .ok (req.idaFor dest) := by
  obtain ⟨_, _, hfr⟩ := readRoot_ok.1 h
  cases dest with
  | idToken => exact hfr.idaIdToken
  | userinfo => exact hfr.idaUserinfo

end Surface

/-! ### What a merge keeps -/

/-- What is left of a stored request after a new one was merged into it: a section that is wiped
is gone, and so are verified claims where the new request asks for some. -/
def ClaimsRequest.keptUnder (held new : ClaimsRequest) (granted : Object) : ClaimsRequest :=
  { held with
    idToken := if wipes granted .idToken then [] else held.idToken
    userinfo := if wipes granted .userinfo then [] else held.userinfo
    idaIdToken :=
      if wipes granted .idToken ∨ new.idaIdToken.isSome then none else held.idaIdToken
    idaUserinfo :=
      if wipes granted .userinfo ∨ new.idaUserinfo.isSome then none else held.idaUserinfo }

section Kept

variable {held new : ClaimsRequest} {granted : Object}

theorem claimsFor_keptUnder (dest : Destination) :
    (held.keptUnder new granted).claimsFor dest =
      if wipes granted dest then [] else held.claimsFor dest := by
  cases dest <;> rfl

theorem idaFor_keptUnder (dest : Destination) :
    (held.keptUnder new granted).idaFor dest =
      if wipes granted dest ∨ (new.idaFor dest).isSome then none else held.idaFor dest := by
  cases dest <;> rfl

end Kept

/-- What a merge of two documents has read. -/
structure MergedFrom (serde : Serde) (existing granted : Object)
    (held new parsed : ClaimsRequest) : Prop where
  plainExisting : Plain 8 (.obj existing)
  plainGranted : Plain 8 (.obj granted)
  readHeld : ClaimsRequest.readRoot existing = .ok held
  readNew : ClaimsRequest.readRoot granted = .ok new
  readParsed : ClaimsRequest.readRoot (mergedRoot existing granted) = .ok parsed
  agree : ∀ asc asc', held.advancedSurface serde = some asc →
    new.advancedSurface serde = some asc' → asc = asc'
  asc : parsed.advancedSurface serde =
    (held.advancedSurface serde).or (new.advancedSurface serde)

namespace MergedFrom

variable {serde : Serde} {old granted : Object} {held new parsed : ClaimsRequest}

section

variable (h : MergedFrom serde old granted held new parsed)
include h

theorem merged : Plain 8 (.obj (mergedRoot old granted)) :=
  plain_mergedRoot (n := 6) h.plainExisting h.plainGranted

theorem mem_sectionSurface (dest : Destination) {text : String} :
    text ∈ sectionSurface dest (parsed.claimsFor dest) ↔
      text ∈ sectionSurface dest (new.claimsFor dest) ∨
      text ∈ sectionSurface dest ((held.keptUnder new granted).claimsFor dest) := by
  have hmrg := lookup_sectionOf_mergedRoot old (n := 6) h.plainGranted dest
  rw [claimsFor_keptUnder, mem_sectionSurface_of_readRoot h.merged h.readParsed,
    mem_sectionSurface_of_readRoot h.plainGranted h.readNew]
  cases hwip : wipes granted dest with
  | true => simp [hmrg, hwip, sectionSurface]
  | false =>
    rw [if_neg (by simp), mem_sectionSurface_of_readRoot h.plainExisting h.readHeld]
    simp only [hmrg, hwip, Bool.false_eq_true, Option.isSome_or, Bool.or_eq_true, ← exists_or]
    exact exists_congr fun name => by tauto

/-- The verified claims of a destination are the new ones, or else what is kept. -/
theorem idaFor_eq (dest : Destination) :
    parsed.idaFor dest = (new.idaFor dest).or ((held.keptUnder new granted).idaFor dest) := by
  have hmrg := lookup_sectionOf_mergedRoot old (n := 6) h.plainGranted dest
  have hprs := parseIdaSection_of_readRoot h.readParsed dest
  have hnew := parseIdaSection_of_readRoot h.readNew dest
  have hhd := parseIdaSection_of_readRoot h.readHeld dest
  unfold parseIdaSection at hprs hnew hhd
  rw [hmrg] at hprs
  rw [idaFor_keptUnder]
  cases hlk : lookup (sectionOf granted dest.asStr) "verified_claims" with
  | some =>
    rw [hlk] at hprs hnew
    obtain ⟨ida, -, hida⟩ := map_ok.1 hnew
    have hsm : parsed.idaFor dest = new.idaFor dest :=
      Except.ok.inj (hprs.symm.trans hnew)
    rw [hsm, ← hida]
    rfl
  | none =>
    rw [hlk] at hprs hnew
    have hno : new.idaFor dest = none := (Except.ok.inj hnew).symm
    rw [hno]
    cases hwip : wipes granted dest with
    | true =>
      rw [hwip] at hprs
      exact (Except.ok.inj hprs).symm
    | false =>
      rw [hwip] at hprs
      simpa using Except.ok.inj (hprs.symm.trans hhd)

/-- **The surface of the merged request**: what the new one asks for and what is kept. -/
theorem claimsSurface_eq :
    claimsSurface serde parsed =
      claimsSurface serde new ∪ claimsSurface serde (held.keptUnder new granted) := by
  ext text
  have hida : ∀ dest ida, parsed.idaFor dest = some ida ↔
      new.idaFor dest = some ida ∨
      (held.keptUnder new granted).idaFor dest = some ida := by
    intro dest _
    rw [h.idaFor_eq, idaFor_keptUnder]
    cases new.idaFor dest <;> simp
  have hasc : ∀ asc, parsed.advancedSurface serde = some asc ↔
      new.advancedSurface serde = some asc ∨
      (held.keptUnder new granted).advancedSurface serde = some asc := by
    intro _
    have hkp : (held.keptUnder new granted).advancedSurface serde =
        held.advancedSurface serde := rfl
    have hagr := h.agree
    rw [h.asc, hkp]
    cases hhd : held.advancedSurface serde with
    | none => simp
    | some =>
      simp only [Option.some_or, Option.some.injEq]
      refine ⟨.inr, fun hor => hor.elim (fun hnew => ?_) id⟩
      exact hagr _ _ hhd hnew
  rw [Finset.mem_union, mem_claimsSurface_parts, mem_claimsSurface_parts, mem_claimsSurface_parts]
  simp only [h.mem_sectionSurface, hida, hasc, or_and_right, exists_or]
  exact (or_congr_right or_or_or_comm).trans or_or_or_comm

end

end MergedFrom

/-! ### What a merged grant records -/

section Recorded

variable {serde : Serde} {old granted merged : ConsentGrant} {now : ℤ}

theorem mergedDetails_ok {held new details : List Json} :
    mergedDetails held new = .ok details ↔
      (Distinct.append held new).length ≤ AuthorizationDetails.maxElements ∧
        Distinct.append held new = details := by
  simp [mergedDetails]

/-- What a merge of claims has read and written. -/
theorem mergedClaims_ok {held new merged : Json} (hhd : Plain 127 held) (hnew : Plain 127 new)
    (h : mergedClaims serde held new = .ok merged) :
    ∃ hel newRoot heldRequest newRequest parsed,
      MergedFrom serde hel newRoot heldRequest newRequest parsed ∧
      held = .obj hel ∧ new = .obj newRoot ∧ merged = .obj (mergedRoot hel newRoot) ∧
      fromJson serde held = .ok heldRequest ∧ fromJson serde new = .ok newRequest ∧
      fromJson serde merged = .ok parsed := by
  simp only [mergedClaims, bind_ok, mapError_ok, refuseIf_ok, exists_const, okOr_ok,
    asObject_eq_some, pure_ok, not_and, not_not] at h
  obtain ⟨heldRequest, hhel, newRequest, hne, hagr, hel, rfl, newRoot, rfl, parsed,
    hprs, hasc, rfl⟩ := h
  obtain ⟨-, _, ⟨⟩, hpl, hheldRo, -⟩ := (fromJson_ok serde hhd).1 hhel
  obtain ⟨-, _, ⟨⟩, hpl', hnewRo, -⟩ := (fromJson_ok serde hnew).1 hne
  have hmrg := (plain_mergedRoot (n := 6) hpl hpl').mono (by decide : 8 ≤ 127)
  obtain ⟨-, _, ⟨⟩, -, hps, -⟩ := (fromJson_ok serde hmrg).1 hprs
  refine ⟨hel, newRoot, heldRequest, newRequest, parsed, ⟨hpl, hpl', hheldRo, hnewRo,
    hps, fun asc asc' hso hso' => ?_, hasc⟩, rfl, rfl, rfl, hhel, hne, hprs⟩
  have hsm := hagr (by simp [hso]) (by simp [hso'])
  exact Option.some.inj (hso.symm.trans (hsm.trans hso'))

/-- A merge of claims is not refused when all three documents are read and the advanced claims
agree. -/
theorem mergedClaims_of_read {hel newRoot : Object} {held new parsed : ClaimsRequest}
    (hhd : fromJson serde (.obj hel) = .ok held)
    (hnew : fromJson serde (.obj newRoot) = .ok new)
    (hprs : fromJson serde (.obj (mergedRoot hel newRoot)) = .ok parsed)
    (hagr : (held.advancedSurface serde).isSome → (new.advancedSurface serde).isSome →
      held.advancedSurface serde = new.advancedSurface serde)
    (hasc : parsed.advancedSurface serde =
      (held.advancedSurface serde).or (new.advancedSurface serde)) :
    mergedClaims serde (.obj hel) (.obj newRoot) =
      .ok (.obj (mergedRoot hel newRoot)) := by
  simp only [mergedClaims, bind_ok, mapError_ok, refuseIf_ok, exists_const, okOr_ok,
    pure_ok, not_and, not_not]
  exact ⟨held, hhd, new, hnew, hagr, _, rfl, _, rfl, parsed, hprs, hasc, rfl⟩

/-- What a merge that is not refused leaves behind. -/
theorem apply_merge_ok (h : GrantAction.merge.apply serde old granted now = (.ok (), merged)) :
    ∃ details claims,
      mergedDetails old.authorizationDetails granted.authorizationDetails = .ok details ∧
      mergedClaims serde old.claims granted.claims = .ok claims ∧
      merged = GrantAction.stamp
        { old with
          scopes := old.scopes ∪ granted.scopes
          resources := old.resources ∪ granted.resources
          authorizationDetails := details
          claims
          claimsLocales := mergedLocales old.claimsLocales granted.claimsLocales }
        granted now := by
  simp only [GrantAction.apply] at h
  split at h
  · simp at h
  · next details hds =>
    split at h
    · simp at h
    · next claims hcls =>
      simp only [Prod.mk.injEq, true_and] at h
      exact ⟨details, claims, hds, hcls, h.symm⟩

/-- What the new grant leaves of the claims that the stored one records. -/
def keptClaims (serde : Serde) (existing granted : ConsentGrant) : Finset String :=
  match ClaimsRequest.fromJson serde existing.claims, ClaimsRequest.fromJson serde granted.claims,
    granted.claims.asObject with
  | .ok held, .ok new, some root => claimsSurface serde (held.keptUnder new root)
  | _, _, _ => ∅

/-- No claim that was agreed to is overwritten, or the new grant agrees to it as well. -/
def losesNothing (serde : Serde) (existing granted : ConsentGrant) : Bool :=
  (existing.recorded serde).claims ⊆
    (granted.recorded serde).claims ∪ keptClaims serde existing granted

theorem claimsSurface_keptUnder_subset (held new : ClaimsRequest) (root : Object) :
    claimsSurface serde (held.keptUnder new root) ⊆ claimsSurface serde held := by
  intro _
  rw [mem_claimsSurface_parts, mem_claimsSurface_parts]
  rintro (⟨dest, htx⟩ | hasc | ⟨dest, ida, hida, htx⟩)
  · rw [claimsFor_keptUnder] at htx
    split_ifs at htx
    · simp [sectionSurface] at htx
    · exact .inl ⟨dest, htx⟩
  · exact .inr (.inl hasc)
  · rw [idaFor_keptUnder] at hida
    split_ifs at hida
    exact .inr (.inr ⟨dest, ida, hida, htx⟩)

theorem recorded_claims (grant : ConsentGrant) {req : ClaimsRequest}
    (h : fromJson serde grant.claims = .ok req) :
    (grant.recorded serde).claims = claimsSurface serde req := by
  simp [ConsentGrant.recorded, h]

section

variable (hexisting : Plain 127 old.claims) (hgranted : Plain 127 granted.claims)
  (h : GrantAction.merge.apply serde old granted now = (.ok (), merged))
include hexisting hgranted h

/-- The merged grant records what the new one does and what it leaves of the stored one. -/
theorem recorded_merge :
    merged.recorded serde =
      { (old.recorded serde).absorb (granted.recorded serde) with
        claims := (granted.recorded serde).claims ∪ keptClaims serde old granted } := by
  obtain ⟨_, _, hds, hcls, rfl⟩ := apply_merge_ok h
  obtain ⟨-, rfl⟩ := mergedDetails_ok.1 hds
  obtain ⟨_, newRoot, held, new, _, hfr, _, hne, -, hhd, hnew, hprs⟩ :=
    mergedClaims_ok hexisting hgranted hcls
  have hkp : keptClaims serde old granted =
      claimsSurface serde (held.keptUnder new newRoot) := by
    simp [keptClaims, hhd, hnew, show granted.claims.asObject = some newRoot by simp [hne]]
  have htxt : ((Distinct.append old.authorizationDetails granted.authorizationDetails).map
      serde.toString).toFinset = (old.authorizationDetails.map serde.toString).toFinset ∪
        (granted.authorizationDetails.map serde.toString).toFinset := by
    ext text
    simp [Distinct.mem_append, or_and_right, exists_or]
  rw [recorded_claims granted hnew, hkp, ← hfr.claimsSurface_eq]
  simp [ConsentGrant.recorded, GrantAction.stamp, Asked.absorb, hprs, htxt]

/-- A second merge of the same grant is not refused and changes nothing but the stamp. -/
theorem apply_merge_merge (later : ℤ) :
    GrantAction.merge.apply serde merged granted later =
      (.ok (), { merged with updatedAt := later }) := by
  obtain ⟨_, _, hds, hcls, rfl⟩ := apply_merge_ok h
  obtain ⟨_, rfl⟩ := mergedDetails_ok.1 hds
  obtain ⟨hel, newRoot, held, new, _, hfr, _, hne, rfl, _, hnew, hprs⟩ :=
    mergedClaims_ok hexisting hgranted hcls
  have hds' : mergedDetails
      (Distinct.append old.authorizationDetails granted.authorizationDetails)
      granted.authorizationDetails =
      .ok (Distinct.append old.authorizationDetails granted.authorizationDetails) :=
    mergedDetails_ok.2 ⟨by rwa [Distinct.append_append], Distinct.append_append _ _⟩
  have hcls' : mergedClaims serde (.obj (mergedRoot hel newRoot)) granted.claims =
      .ok (.obj (mergedRoot hel newRoot)) := by
    have hrt := mergedRoot_mergedRoot (n := 6) hfr.plainExisting hfr.plainGranted
    have haga := mergedClaims_of_read hprs (hne ▸ hnew) (hrt.symm ▸ hprs)
      (fun _ hso => ?_) ?_
    · rwa [hrt, ← hne] at haga
    · -- the merged expression is the new one when there is a new one
      obtain ⟨_, hasc⟩ := Option.isSome_iff_exists.1 hso
      rw [hfr.asc, hasc]
      cases hhd : held.advancedSurface serde with
      | none => rfl
      | some => rw [hfr.agree _ _ hhd hasc]; rfl
    · rw [hfr.asc]
      cases held.advancedSurface serde <;> cases new.advancedSurface serde <;> rfl
  have hloc : mergedLocales (mergedLocales old.claimsLocales granted.claimsLocales)
      granted.claimsLocales = mergedLocales old.claimsLocales granted.claimsLocales :=
    Distinct.take_append_take _ _ _
  simp [GrantAction.apply, GrantAction.stamp, hds', hcls', hloc, union]

end

/-- **What a merged grant records.**  It is the union of what the two grants record exactly when no
claim that was agreed to is overwritten.  Nothing is added in any case, scopes, resources and
authorization details are never lost, and merging the same grant again changes nothing. -/
theorem merge_recorded (hexisting : Plain 127 old.claims) (hgranted : Plain 127 granted.claims)
    (h : GrantAction.merge.apply serde old granted now = (.ok (), merged)) :
    (merged.recorded serde = (old.recorded serde).absorb (granted.recorded serde) ↔
      losesNothing serde old granted = true) ∧
    (∀ kind, (merged.recorded serde).items kind ⊆
      (old.recorded serde).items kind ∪ (granted.recorded serde).items kind) ∧
    (∀ kind, kind ≠ .claim → (merged.recorded serde).items kind =
      (old.recorded serde).items kind ∪ (granted.recorded serde).items kind) ∧
    ∀ later, GrantAction.merge.apply serde merged granted later =
      (.ok (), { merged with updatedAt := later }) := by
  have hrec := recorded_merge hexisting hgranted h
  have hkp : keptClaims serde old granted ⊆ (old.recorded serde).claims := by
    unfold keptClaims
    split
    · next held _ _ hhd _ _ =>
      rw [recorded_claims old hhd]
      exact claimsSurface_keptUnder_subset _ _ _
    · exact Finset.empty_subset _
  have hoth : ∀ kind, kind ≠ .claim → (merged.recorded serde).items kind =
      (old.recorded serde).items kind ∪ (granted.recorded serde).items kind := by
    intro kind hkd
    rw [hrec]
    cases kind <;> first | rfl | exact absurd rfl hkd
  have hcls : (merged.recorded serde).items .claim =
      (granted.recorded serde).claims ∪ keptClaims serde old granted := by rw [hrec]; rfl
  have hsub : (merged.recorded serde).items .claim ⊆
      (old.recorded serde).items .claim ∪ (granted.recorded serde).items .claim := by
    rw [hcls]
    exact Finset.union_subset Finset.subset_union_right (hkp.trans Finset.subset_union_left)
  refine ⟨?_, fun kind => ?_, hoth, apply_merge_merge hexisting hgranted h⟩
  · rw [losesNothing, decide_eq_true_eq]
    constructor
    · intro huni
      have hall : (merged.recorded serde).items .claim =
          (old.recorded serde).claims ∪ (granted.recorded serde).claims := by
        rw [huni]; rfl
      rw [← hcls, hall]
      exact Finset.subset_union_left
    · intro hlo
      refine Asked.ext_items fun kind => ?_
      rw [Asked.items_absorb]
      by_cases hkd : kind = .claim
      · subst hkd
        refine hsub.antisymm ?_
        rw [hcls]
        exact Finset.union_subset hlo Finset.subset_union_left
      · exact hoth kind hkd
  · by_cases hkd : kind = .claim
    · exact hkd ▸ hsub
    · exact (hoth kind hkd).subset

end Recorded

/-- The reader's grant with a claims request. -/
def readerGrantFor (request : ClaimsRequest) : ConsentGrant :=
  { Remembered.readerGrant with claims := request.toJson }

/-- A merge of claims that are read changes the claims of the reader's grant to the union. -/
theorem apply_merge_readerGrantFor {held new parsed : ClaimsRequest}
    (hhd : fromJson .compact held.toJson = .ok held)
    (hnew : fromJson .compact new.toJson = .ok new)
    (hprs : fromJson .compact (.obj (mergedRoot held.rootJson new.rootJson)) =
      .ok parsed)
    (hasc : held.asc = none ∧ new.asc = none ∧ parsed.asc = none) :
    GrantAction.merge.apply .compact (readerGrantFor held) (readerGrantFor new) 1 =
      (.ok (), { Remembered.readerGrant with
        claims := .obj (mergedRoot held.rootJson new.rootJson), updatedAt := 1 }) := by
  obtain ⟨hhel, hne, hps⟩ := hasc
  rw [toJson_eq] at hhd hnew
  have hcls := mergedClaims_of_read hhd hnew hprs
    (by simp [advancedSurface, hhel])
    (by simp [advancedSurface, hhel, hne, hps])
  have hds : mergedDetails (readerGrantFor held).authorizationDetails
      (readerGrantFor new).authorizationDetails = .ok [] := rfl
  rw [← toJson_eq, ← toJson_eq] at hcls
  simp only [GrantAction.apply, hds]
  rw [show mergedClaims .compact (readerGrantFor held).claims (readerGrantFor new).claims = _
    from hcls]
  rfl

theorem merge_recorded_email : let old := readerGrantFor verifiedName
    let granted := readerGrantFor ClaimsRequest.emailRequest
    ∃ merged, GrantAction.merge.apply .compact old granted 1 = (.ok (), merged) ∧
    merged.recorded .compact =
      (old.recorded .compact).absorb (granted.recorded .compact) := by
  intro old granted
  obtain ⟨hacc, hpl⟩ := parse_sound _ parse_verifiedText
  obtain ⟨hacc', hpl'⟩ := parse_sound _ parse_emailRoot
  have hexisting : Plain 127 old.claims := hpl.mono (by decide)
  have hgranted : Plain 127 granted.claims := hpl'.mono (by decide)
  have hhd : fromJson .compact verifiedName.toJson = .ok verifiedName :=
    (hacc.fromJson_toJson _ hexisting).2 ⟨rfl, by decide +kernel⟩
  have hnew : fromJson .compact emailRequest.toJson =
      .ok emailRequest :=
    (hacc'.fromJson_toJson _ hgranted).2 ⟨rfl, by decide +kernel⟩
  have hbo : fromJson .compact (.obj (mergedRoot verifiedName.rootJson
      emailRequest.rootJson)) =
      .ok { emailRequest with idaIdToken := verifiedName.idaIdToken } := by
    decide +kernel
  have hmrg := apply_merge_readerGrantFor hhd hnew hbo ⟨rfl, rfl, rfl⟩
  refine ⟨_, hmrg, (merge_recorded hexisting hgranted hmrg).1.2 ?_⟩
  -- the new request asks for no verified claims, so all of the stored one is kept
  have hkp : verifiedName.keptUnder emailRequest
      emailRequest.rootJson = verifiedName := by decide +kernel
  have hrt : granted.claims.asObject = some emailRequest.rootJson := by
    simp [granted, readerGrantFor, toJson_eq]
  rw [losesNothing, decide_eq_true_eq, recorded_claims old hhd, keptClaims]
  simp only [old, granted, readerGrantFor, hhd, hnew]
  exact Finset.subset_union_right

/-- Asks for the family name that was verified under another trust framework. -/
def verifiedFamilyName : ClaimsRequest :=
  { ClaimsRequest.default with
    idaIdToken := some
      { framework := some "de_aml", claims := [(⟨"family_name", by decide⟩, false)]
        evidenceTypes := ∅, verificationProcess := false } }

/-- **A merge can lose what was agreed to**: the verified claims of the new request take the place
of those of the stored one. -/
theorem merge_loses_verified_claims : let old := readerGrantFor verifiedName
    let granted := readerGrantFor verifiedFamilyName
    ∃ merged, GrantAction.merge.apply .compact old granted 1 = (.ok (), merged) ∧
    "id_token:verified_claims:eidas:given_name" ∈ (old.recorded .compact).claims ∧
    (merged.recorded .compact).claims = {"id_token:verified_claims:de_aml:family_name"} := by
  have hhd : fromJson .compact verifiedName.toJson = .ok verifiedName := by
    decide +kernel
  have hnew : fromJson .compact verifiedFamilyName.toJson =
      .ok verifiedFamilyName := by decide +kernel
  have hrt : Json.obj (mergedRoot verifiedName.rootJson verifiedFamilyName.rootJson) =
      verifiedFamilyName.toJson := by decide +kernel
  have hmer := apply_merge_readerGrantFor hhd hnew (hrt ▸ hnew) ⟨rfl, rfl, rfl⟩
  have hmrg := recorded_claims { Remembered.readerGrant with
    claims := .obj (mergedRoot verifiedName.rootJson verifiedFamilyName.rootJson)
    updatedAt := 1 } (hrt ▸ hnew)
  refine ⟨_, hmer, ?_, hmrg.trans (by decide +kernel)⟩
  decide +kernel

/-! ### The bounds of a row -/

/-- What is checked of a stored grant: its row can be read, its claims and its authorization
details can be read back. -/
structure ConsentGrant.Valid (serde : Serde) (isUri : String → Bool) (grant : ConsentGrant) :
    Prop where
  row : ∃ result, grant.record.validate isUri = .ok result
  claims : ∃ request, ClaimsRequest.fromJson serde grant.claims = .ok request
  details : ∃ details,
    AuthorizationDetails.fromValue (.arr grant.authorizationDetails) = .ok details

section Valid

variable {serde : Serde} {isUri : String → Bool} {old granted : ConsentGrant}

theorem ConsentGrant.row_iff {grant : ConsentGrant} :
    (∃ result, grant.record.validate isUri = .ok result) ↔
      grant.Bounded isUri ∧ grant.Coherent := by
  simp [validate_record]

theorem mergedLocales_bounded {p : String → Prop} {held new : List String}
    (hhd : ∀ tag ∈ held, p tag) (hnew : ∀ tag ∈ new, p tag) :
    (mergedLocales held new).length ≤ Grant.maxClaimsLocales ∧
      ∀ tag ∈ mergedLocales held new, p tag := by
  refine ⟨List.length_take_le _ _, fun tag htag => ?_⟩
  rcases Distinct.mem_append.1 (List.mem_of_mem_take htag) with hnil | htag
  · simp at hnil
  · exact (List.mem_append.1 htag).elim (hhd tag) (hnew tag)

/-- **When a merged grant is valid.**  A merge that is refused leaves the stored grant as it was.
One that is not refused leaves a valid grant exactly when the unions of the scopes and of the
resources are small enough. -/
theorem merge_valid (hexisting : existing.Valid serde isUri) (hgranted : granted.Valid serde isUri)
    {now : ℤ} {answer : Except MergeRefused Unit} {stored : ConsentGrant}
    (hresult : GrantAction.merge.apply serde existing granted now = (answer, stored)) :
    (∀ e, answer = .error e → stored = existing) ∧
      (answer = .ok () → (stored.Valid serde isUri ↔
        (existing.scopes ∪ granted.scopes).card ≤ Grant.maxScopes ∧
          (existing.resources ∪ granted.resources).card ≤ Grant.maxResources)) := by
  refine ⟨fun e he => ?_, fun hok => ?_⟩
  · subst he
    simp only [GrantAction.apply] at hresult
    split at hresult
    · exact (congrArg Prod.snd hresult).symm
    · split at hresult
      · exact (congrArg Prod.snd hresult).symm
      · cases hresult
  · subst hok
    obtain ⟨_, claims, hds, hcls, rfl⟩ := apply_merge_ok hresult
    obtain ⟨hfew, rfl⟩ := mergedDetails_ok.1 hds
    obtain ⟨hbdd, hcoh⟩ := ConsentGrant.row_iff.1 hexisting.row
    obtain ⟨hbdd', -⟩ := ConsentGrant.row_iff.1 hgranted.row
    constructor
    · intro hval
      obtain ⟨hmrg, -⟩ := ConsentGrant.row_iff.1 hval.row
      exact ⟨hmrg.fewScopes, hmrg.fewResources⟩
    · rintro ⟨hscs, hrs⟩
      simp only [mergedClaims, bind_ok, mapError_ok, refuseIf_ok, exists_const, pure_ok] at hcls
      obtain ⟨-, -, -, -, -, hel, -, newRoot, -, parsed, hprs, -, rfl⟩ := hcls
      obtain ⟨hfe, hloc⟩ := mergedLocales_bounded hbdd.locales hbdd'.locales
      have hrow : ConsentGrant.Bounded isUri (GrantAction.stamp
          { existing with
            scopes := existing.scopes ∪ granted.scopes
            resources := existing.resources ∪ granted.resources
            authorizationDetails := Distinct.append existing.authorizationDetails
              granted.authorizationDetails
            claims := .obj (mergedRoot hel newRoot)
            claimsLocales := mergedLocales existing.claimsLocales granted.claimsLocales }
          granted now) := by
        refine ⟨hscs, fun scope hsc => ?_, hrs, fun resource hres => ?_,
          ⟨_, rfl⟩, hfe, hloc⟩
        · exact (Finset.mem_union.1 hsc).elim (hbdd.scopes scope) (hbdd'.scopes scope)
        · exact (Finset.mem_union.1 hres).elim (hbdd.resources resource)
            (hbdd'.resources resource)
      refine ⟨ConsentGrant.row_iff.2 ⟨hrow, ⟨hcoh.revocation, hcoh.expiry⟩⟩,
        ⟨parsed, hprs⟩, AuthorizationDetails.fromValue_arr.2 ⟨hfew, fun element helem => ?_⟩⟩
      exact (Distinct.mem_append.1 helem).elim
        ((AuthorizationDetails.fromValue_arr.1 hexisting.details).2 element)
        ((AuthorizationDetails.fromValue_arr.1 hgranted.details).2 element)

end Valid

/-- The reader's grant for some resources. -/
def readerGrantAt (resources : Finset String) : ConsentGrant :=
  { Remembered.readerGrant with resources }

theorem valid_readerGrantAt {resources : Finset String}
    (hfew : resources.card ≤ Grant.maxResources) :
    (readerGrantAt resources).Valid .compact fun _ => true := by
  have hcls : fromJson .compact (.obj []) = .ok .default := by decide +kernel
  refine ⟨ConsentGrant.row_iff.2 ⟨⟨?_, ?_, hfew, fun _ _ => rfl, ⟨[], rfl⟩, ?_, ?_⟩, ⟨rfl, ?_⟩⟩,
    ⟨_, hcls⟩, ⟨[], rfl⟩⟩
  · exact (by decide : ({"openid", offlineAccess} : Finset String).card ≤ Grant.maxScopes)
  · exact (by decide : ∀ scope ∈ ({"openid", offlineAccess} : Finset String),
      GrantRecord.validateScope scope = .ok ())
  · exact Nat.zero_le _
  · intro _ htag
    cases htag
  · intro _ hexp
    cases hexp

theorem apply_merge_readerGrantAt (resources resources' : Finset String) :
    GrantAction.merge.apply .compact (readerGrantAt resources) (readerGrantAt resources') 1 =
      (.ok (), { readerGrantAt (resources ∪ resources') with updatedAt := 1 }) := by
  have hcls : mergedClaims .compact (.obj []) (.obj []) = .ok (.obj []) := by decide +kernel
  have hds : mergedDetails (readerGrantAt resources).authorizationDetails
      (readerGrantAt resources').authorizationDetails = .ok [] := rfl
  simp only [GrantAction.apply]
  simp only [readerGrantAt, union, Finset.union_self]
  rfl

theorem merge_valid_reader :
    ({ readerGrantAt {"https://a.example/", "https://b.example/"} with
        updatedAt := 1 } : ConsentGrant).Valid .compact fun _ => true := by
  have hres := apply_merge_readerGrantAt {"https://a.example/"} {"https://b.example/"}
  exact ((merge_valid (valid_readerGrantAt (by decide)) (valid_readerGrantAt (by decide))
    hres).2 rfl).2 ⟨by decide, by decide⟩

/-- As many resources as a grant may name. -/
def manyResources : Finset String :=
  ("abcd".toList.flatMap fun c => "abcdefgh".toList.map fun d =>
    String.ofList ("https://api.example/".toList ++ [c, d])).toFinset

/-- **A merge can leave a row that cannot be read**: two valid grants, one with the most resources
a grant may name and one with another resource. -/
theorem merge_too_many_resources : let old := readerGrantAt manyResources
    let granted := readerGrantAt {"https://api.example/more"}
    (old.Valid .compact fun _ => true) ∧ (granted.Valid .compact fun _ => true) ∧
      ∃ merged, GrantAction.merge.apply .compact old granted 1 = (.ok (), merged) ∧
      ∀ result, merged.record.validate (fun _ => true) ≠ .ok result := by
  have hma : ¬(manyResources ∪ {"https://api.example/more"}).card ≤ Grant.maxResources := by
    decide +kernel
  refine ⟨valid_readerGrantAt (by decide +kernel), valid_readerGrantAt (by decide), _,
    apply_merge_readerGrantAt _ _, fun result hres => ?_⟩
  obtain ⟨hbdd, -⟩ := ConsentGrant.row_iff.1 ⟨result, hres⟩
  exact hma hbdd.fewResources

end AsteriusIdp
